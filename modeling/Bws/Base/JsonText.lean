import Bws.Base.Reader

/-!
# JSON texts

The grammar of JSON over bytes, with the space between tokens but none around the text.
`Value` leaves open whether the bytes above 127 in a string are well-formed UTF-8.

`text_cons` is the result: a byte in front of a value makes a text only if it is space or the
value a number. The brackets of a value are balanced (`scan_grammar`), so an opening bracket in
front of it is not closed, and the other first bytes are settled by the first or the last byte
of the value.
-/

namespace Bws.Base.Json

/-- Space, tab, line feed and carriage return. -/
def isSpace (b : UInt8) : Bool := b = 0x20 || b = 0x09 || b = 0x0A || b = 0x0D

/-- A run of space. -/
def Spaces (bs : Bytes) : Prop := ∀ b ∈ bs, isSpace b

/-- `0` to `9`. -/
def isDigit (b : UInt8) : Bool := 0x30 ≤ b && b ≤ 0x39

/-- The digits of hexadecimal. -/
def isHexDigit (b : UInt8) : Bool :=
  isDigit b || (0x41 ≤ b && b ≤ 0x46) || (0x61 ≤ b && b ≤ 0x66)

/-- At least one digit. -/
def Digits (bs : Bytes) : Prop := bs ≠ [] ∧ ∀ b ∈ bs, isDigit b

/-- `0`, or digits that do not start with it. -/
inductive Integer : Bytes → Prop where
  | zero : Integer [0x30]
  | digits (d : UInt8) (ds : Bytes) : isDigit d → d ≠ 0x30 → (∀ b ∈ ds, isDigit b) →
      Integer (d :: ds)

/-- Nothing, or a point and digits. -/
inductive Fraction : Bytes → Prop where
  | none : Fraction []
  | digits (ds : Bytes) : Digits ds → Fraction (0x2E :: ds)

/-- Nothing, or `e` or `E`, an optional sign, and digits. -/
inductive Exponent : Bytes → Prop where
  | none : Exponent []
  | digits (e : UInt8) (sign ds : Bytes) : e = 0x65 ∨ e = 0x45 →
      sign = [] ∨ sign = [0x2B] ∨ sign = [0x2D] → Digits ds → Exponent (e :: (sign ++ ds))

/-- A number. -/
inductive Number : Bytes → Prop where
  | mk (sign int frac exp : Bytes) : sign = [] ∨ sign = [0x2D] → Integer int → Fraction frac →
      Exponent exp → Number (sign ++ int ++ frac ++ exp)

/-- The inside of a string: anything but quotes, backslashes and control bytes, and escapes. -/
inductive Chars : Bytes → Prop where
  | nil : Chars []
  | plain (b : UInt8) (bs : Bytes) : 0x20 ≤ b → b ≠ 0x22 → b ≠ 0x5C → Chars bs →
      Chars (b :: bs)
  | escape (c : UInt8) (bs : Bytes) : c ∈ [0x22, 0x5C, 0x2F, 0x62, 0x66, 0x6E, 0x72, 0x74] →
      Chars bs → Chars (0x5C :: c :: bs)
  | unicode (x y z w : UInt8) (bs : Bytes) : isHexDigit x → isHexDigit y → isHexDigit z →
      isHexDigit w → Chars bs → Chars (0x5C :: 0x75 :: x :: y :: z :: w :: bs)

/-- The recursive parts of the grammar: a value, a value with space around it, those between
the brackets of an array, a name and its value, and those between the braces of an object. -/
inductive Part where
  | value
  | element
  | elements
  | member
  | members

/-- The grammar. -/
inductive Grammar : Part → Bytes → Prop where
  | null : Grammar .value [0x6E, 0x75, 0x6C, 0x6C]
  | true : Grammar .value [0x74, 0x72, 0x75, 0x65]
  | false : Grammar .value [0x66, 0x61, 0x6C, 0x73, 0x65]
  | number {bs : Bytes} : Number bs → Grammar .value bs
  | string {cs : Bytes} : Chars cs → Grammar .value (0x22 :: (cs ++ [0x22]))
  | emptyArray {gap : Bytes} : Spaces gap → Grammar .value (0x5B :: (gap ++ [0x5D]))
  | array {es : Bytes} : Grammar .elements es → Grammar .value (0x5B :: (es ++ [0x5D]))
  | emptyObject {gap : Bytes} : Spaces gap → Grammar .value (0x7B :: (gap ++ [0x7D]))
  | object {ms : Bytes} : Grammar .members ms → Grammar .value (0x7B :: (ms ++ [0x7D]))
  | element {before v after : Bytes} : Spaces before → Grammar .value v → Spaces after →
      Grammar .element (before ++ v ++ after)
  | lastElement {e : Bytes} : Grammar .element e → Grammar .elements e
  | elements {e es : Bytes} : Grammar .element e → Grammar .elements es →
      Grammar .elements (e ++ 0x2C :: es)
  | member {before name middle e : Bytes} : Spaces before → Chars name → Spaces middle →
      Grammar .element e →
      Grammar .member (before ++ 0x22 :: (name ++ [0x22]) ++ (middle ++ 0x3A :: e))
  | lastMember {m : Bytes} : Grammar .member m → Grammar .members m
  | members {m ms : Bytes} : Grammar .member m → Grammar .members ms →
      Grammar .members (m ++ 0x2C :: ms)

/-- A value, with no space around it. -/
abbrev Value (bs : Bytes) : Prop := Grammar .value bs

/-- A value with space around it. -/
def Text (bs : Bytes) : Prop :=
  ∃ before v after, bs = before ++ v ++ after ∧ Spaces before ∧ Value v ∧ Spaces after

/-! ## Balanced brackets -/

/-- Where a scan stands: outside a string, inside one, or behind a backslash inside one. -/
inductive Mode where
  | outside
  | inside
  | escaped
  deriving DecidableEq

/-- One byte of a scan that counts the open brackets. -/
def scan : Mode × Int → UInt8 → Mode × Int
  | (.outside, depth), b =>
      if b = 0x22 then (.inside, depth)
      else if b = 0x5B ∨ b = 0x7B then (.outside, depth + 1)
      else if b = 0x5D ∨ b = 0x7D then (.outside, depth - 1)
      else (.outside, depth)
  | (.inside, depth), b =>
      if b = 0x22 then (.outside, depth)
      else if b = 0x5C then (.escaped, depth)
      else (.inside, depth)
  | (.escaped, depth), _ => (.inside, depth)

/-- A byte that leaves a scan outside a string where it is. -/
def Neutral (b : UInt8) : Prop := ∀ depth, scan (.outside, depth) b = (.outside, depth)

/-- Neutral bytes leave a scan where it is. -/
theorem scan_neutral {bs : Bytes} (h : ∀ b ∈ bs, Neutral b) (depth : Int) :
    bs.foldl scan (.outside, depth) = (.outside, depth) := by
  induction bs with
  | nil => rfl
  | cons b bs ih =>
      rw [List.foldl_cons, h b (by simp), ih fun c hc => h c (by simp [hc])]

/-- A set of bytes without quotes and brackets is neutral. -/
theorem neutral_of_set (p : UInt8 → Bool)
    (hp : ∀ b ∈ [0x22, 0x5B, 0x7B, 0x5D, 0x7D], p b = false) {b : UInt8} (h : p b) :
    Neutral b := by
  have hne : ∀ c ∈ [0x22, 0x5B, 0x7B, 0x5D, 0x7D], b ≠ c := by
    rintro c hc rfl
    exact absurd h (by simp [hp b hc])
  simp only [List.forall_mem_cons] at hne
  obtain ⟨hquote, hbracket, hbrace, hbracket', hbrace', -⟩ := hne
  intro depth
  simp only [scan, hquote, hbracket, hbrace, hbracket', hbrace', or_self, if_false]

/-- Space is neutral. -/
theorem Spaces.neutral {bs : Bytes} (h : Spaces bs) : ∀ b ∈ bs, Neutral b :=
  fun b hb => neutral_of_set isSpace (by decide +kernel) (h b hb)

/-- The bytes of numbers. -/
def isNumberByte (b : UInt8) : Bool :=
  isDigit b || b = 0x2D || b = 0x2B || b = 0x2E || b = 0x65 || b = 0x45

/-- Digits are bytes of numbers. -/
theorem isNumberByte_of_isDigit {b : UInt8} (h : isDigit b) : isNumberByte b := by
  simp [isNumberByte, h]

/-- A number has bytes of numbers only. -/
theorem Number.bytes {bs : Bytes} (h : Number bs) : ∀ b ∈ bs, isNumberByte b := by
  obtain ⟨sign, int, frac, exp, hsign, hint, hfrac, hexp⟩ := h
  have hsignBytes : ∀ b ∈ sign, isNumberByte b := by
    rcases hsign with rfl | rfl <;> decide +kernel
  have hintBytes : ∀ b ∈ int, isNumberByte b := by
    cases hint with
    | zero => decide +kernel
    | digits d ds hd _ hds =>
        exact List.forall_mem_cons.mpr ⟨isNumberByte_of_isDigit hd,
          fun b hb => isNumberByte_of_isDigit (hds b hb)⟩
  have hfracBytes : ∀ b ∈ frac, isNumberByte b := by
    cases hfrac with
    | none => simp
    | digits ds hds =>
        exact List.forall_mem_cons.mpr ⟨by decide,
          fun b hb => isNumberByte_of_isDigit (hds.2 b hb)⟩
  have hexpBytes : ∀ b ∈ exp, isNumberByte b := by
    cases hexp with
    | none => simp
    | digits e sign ds he hsign hds =>
        refine List.forall_mem_cons.mpr ⟨?_, List.forall_mem_append.mpr ⟨?_,
          fun b hb => isNumberByte_of_isDigit (hds.2 b hb)⟩⟩
        · rcases he with rfl | rfl <;> decide
        · rcases hsign with rfl | rfl | rfl <;> decide +kernel
  intro b hb
  simp only [List.mem_append, or_assoc] at hb
  rcases hb with hb | hb | hb | hb
  · exact hsignBytes b hb
  · exact hintBytes b hb
  · exact hfracBytes b hb
  · exact hexpBytes b hb

/-- The inside of a string leaves a scan inside. -/
theorem scan_chars {cs : Bytes} (h : Chars cs) (depth : Int) :
    cs.foldl scan (.inside, depth) = (.inside, depth) := by
  induction h with
  | nil => rfl
  | plain b bs _ hquote hbackslash _ ih =>
      rw [List.foldl_cons, scan, if_neg hquote, if_neg hbackslash, ih]
  | escape c bs _ _ ih => exact ih
  | unicode x y z w bs hx hy hz hw _ ih =>
      have hhex : ∀ {b}, isHexDigit b → scan (.inside, depth) b = (.inside, depth) := by
        intro b hb
        have hquote : b ≠ 0x22 := by
          rintro rfl
          exact absurd hb (by decide)
        have hbackslash : b ≠ 0x5C := by
          rintro rfl
          exact absurd hb (by decide)
        rw [scan, if_neg hquote, if_neg hbackslash]
      simp only [List.foldl_cons]
      rw [show scan (scan (.inside, depth) 0x5C) 0x75 = (.inside, depth) from rfl, hhex hx,
        hhex hy, hhex hz, hhex hw, ih]

/-- A string in quotes leaves a scan outside. -/
theorem scan_string {cs : Bytes} (h : Chars cs) (depth : Int) :
    (0x22 :: (cs ++ [0x22])).foldl scan (.outside, depth) = (.outside, depth) := by
  rw [List.foldl_cons, List.foldl_append]
  change List.foldl scan (cs.foldl scan (.inside, depth)) [0x22] = _
  rw [scan_chars h]
  rfl

/-- An inside that leaves the depth alone does so between its brackets. -/
theorem scan_closed {inner : Bytes} {opening closing : UInt8} {depth : Int}
    (hopen : scan (.outside, depth) opening = (.outside, depth + 1))
    (hclose : scan (.outside, depth + 1) closing = (.outside, depth + 1 - 1))
    (hinner : inner.foldl scan (.outside, depth + 1) = (.outside, depth + 1)) :
    (opening :: (inner ++ [closing])).foldl scan (.outside, depth) = (.outside, depth) := by
  rw [List.foldl_cons, hopen, List.foldl_append, hinner, List.foldl_cons, hclose,
    Int.add_sub_cancel]
  rfl

/-- What the grammar derives has balanced brackets. -/
theorem scan_grammar {part : Part} {bs : Bytes} (h : Grammar part bs) (depth : Int) :
    bs.foldl scan (.outside, depth) = (.outside, depth) := by
  induction h generalizing depth with
  | null => rfl
  | true => rfl
  | false => rfl
  | number hn =>
      refine scan_neutral (fun b hb => ?_) depth
      exact neutral_of_set isNumberByte (by decide +kernel) (hn.bytes b hb)
  | string hcs => exact scan_string hcs depth
  | emptyArray hgap => exact scan_closed rfl rfl (scan_neutral hgap.neutral _)
  | array _ ih => exact scan_closed rfl rfl (ih _)
  | emptyObject hgap => exact scan_closed rfl rfl (scan_neutral hgap.neutral _)
  | object _ ih => exact scan_closed rfl rfl (ih _)
  | element hbefore _ hafter ih =>
      rw [List.foldl_append, List.foldl_append, scan_neutral hbefore.neutral, ih,
        scan_neutral hafter.neutral]
  | lastElement _ ih => exact ih depth
  | elements _ _ ihe ihes =>
      rw [List.foldl_append, ihe, List.foldl_cons]
      exact ihes depth
  | member hbefore hname hmiddle _ ih =>
      have hkey := scan_string hname depth
      rw [← scan_neutral hbefore.neutral depth, ← List.foldl_append] at hkey
      rw [List.foldl_append, hkey, List.foldl_append, scan_neutral hbefore.neutral,
        scan_neutral hmiddle.neutral, List.foldl_cons]
      exact ih depth
  | lastMember _ ih => exact ih depth
  | members _ _ ihm ihms =>
      rw [List.foldl_append, ihm, List.foldl_cons]
      exact ihms depth

/-! ## First and last bytes -/

/-- The bytes that values start with. -/
def isFirst (b : UInt8) : Bool :=
  b = 0x6E || b = 0x74 || b = 0x66 || b = 0x22 || b = 0x5B || b = 0x7B || b = 0x2D || isDigit b

/-- A value is not empty and starts with one of these bytes. -/
theorem value_first {bs : Bytes} (h : Value bs) : ∃ b rest, bs = b :: rest ∧ isFirst b := by
  cases h with
  | null => exact ⟨_, _, rfl, rfl⟩
  | true => exact ⟨_, _, rfl, rfl⟩
  | false => exact ⟨_, _, rfl, rfl⟩
  | number hn =>
      obtain ⟨sign, int, frac, exp, rfl | rfl, hint, hfrac, hexp⟩ := hn
      · cases hint with
        | zero => exact ⟨_, _, rfl, rfl⟩
        | digits d ds hd _ _ => exact ⟨_, _, rfl, by simp [isFirst, hd]⟩
      · exact ⟨_, _, rfl, rfl⟩
  | string _ => exact ⟨_, _, rfl, rfl⟩
  | emptyArray _ => exact ⟨_, _, rfl, rfl⟩
  | array _ => exact ⟨_, _, rfl, rfl⟩
  | emptyObject _ => exact ⟨_, _, rfl, rfl⟩
  | object _ => exact ⟨_, _, rfl, rfl⟩

/-- The last byte of bytes in brackets. -/
theorem last_closed {bs : Bytes} (inner : Bytes) {b opening closing : UInt8}
    (h : bs ++ [b] = opening :: (inner ++ [closing])) : bs = opening :: inner ∧ b = closing := by
  have happend : bs ++ [b] = (opening :: inner) ++ [closing] := h
  obtain ⟨hfront, hlast⟩ := List.append_inj' happend rfl
  exact ⟨hfront, List.singleton_inj.mp hlast⟩

/-- The last byte of a value: one of a number or a literal, a closing bracket, or the closing
quote of a string. -/
theorem value_last {bs : Bytes} {b : UInt8} (h : Value (bs ++ [b])) :
    isNumberByte b ∨ b ∈ [0x6C, 0x65, 0x5D, 0x7D] ∨
      (b = 0x22 ∧ ∃ cs, bs = 0x22 :: cs ∧ Chars cs) := by
  generalize hv : bs ++ [b] = v at h
  cases h with
  | null =>
      obtain ⟨-, rfl⟩ := last_closed [0x75, 0x6C] hv
      exact .inr (.inl (by decide))
  | true =>
      obtain ⟨-, rfl⟩ := last_closed [0x72, 0x75] hv
      exact .inr (.inl (by decide))
  | false =>
      obtain ⟨-, rfl⟩ := last_closed [0x61, 0x6C, 0x73] hv
      exact .inr (.inl (by decide))
  | number hn => exact .inl (hn.bytes b (by simp [← hv]))
  | string hcs =>
      obtain ⟨hfront, rfl⟩ := last_closed _ hv
      exact .inr (.inr ⟨rfl, _, hfront, hcs⟩)
  | emptyArray _ =>
      obtain ⟨-, rfl⟩ := last_closed _ hv
      exact .inr (.inl (by decide))
  | array _ =>
      obtain ⟨-, rfl⟩ := last_closed _ hv
      exact .inr (.inl (by decide))
  | emptyObject _ =>
      obtain ⟨-, rfl⟩ := last_closed _ hv
      exact .inr (.inl (by decide))
  | object _ =>
      obtain ⟨-, rfl⟩ := last_closed _ hv
      exact .inr (.inl (by decide))

/-- A value does not end in space. -/
theorem value_last_not_space {bs : Bytes} {b : UInt8} (h : Value (bs ++ [b])) :
    ¬ isSpace b := by
  intro hspace
  have hset : b ∈ [0x20, 0x09, 0x0A, 0x0D] := by
    simpa [isSpace, or_assoc] using hspace
  have hnumber : ∀ c ∈ [(0x20 : UInt8), 0x09, 0x0A, 0x0D], isNumberByte c = false := by
    decide +kernel
  have hliteral : ∀ c ∈ [(0x20 : UInt8), 0x09, 0x0A, 0x0D], c ∉ [0x6C, 0x65, 0x5D, 0x7D] := by
    decide +kernel
  rcases value_last h with hb | hb | ⟨rfl, -⟩
  · simp [hnumber b hset] at hb
  · exact hliteral b hset hb
  · exact absurd hspace (by decide)

/-- No string has an unescaped quote inside. -/
theorem not_chars_quote (cs : Bytes) : ¬ Chars (0x22 :: cs) := by
  intro h
  cases h with
  | plain _ _ _ hquote => exact hquote rfl

/-- A bracket in front of a value is not closed. -/
theorem not_value_open {b : UInt8} {bs : Bytes} (hb : b = 0x5B ∨ b = 0x7B) (h : Value bs) :
    ¬ Value (b :: bs) := by
  intro hcons
  have hscan := scan_grammar hcons 0
  have hopen : scan (.outside, 0) b = (.outside, 1) := by
    rcases hb with rfl | rfl <;> rfl
  rw [List.foldl_cons, hopen, scan_grammar h] at hscan
  cases hscan

/-- Bytes of numbers only are a number when they are a value. -/
theorem number_of_bytes {bs : Bytes} (h : Value bs) (hbytes : ∀ b ∈ bs, isNumberByte b) :
    Number bs := by
  cases h with
  | number hn => exact hn
  | null => exact absurd (hbytes 0x6E (by simp)) (by decide)
  | true => exact absurd (hbytes 0x74 (by simp)) (by decide)
  | false => exact absurd (hbytes 0x66 (by simp)) (by decide)
  | string _ => exact absurd (hbytes 0x22 (by simp)) (by decide)
  | emptyArray _ => exact absurd (hbytes 0x5B (by simp)) (by decide)
  | array _ => exact absurd (hbytes 0x5B (by simp)) (by decide)
  | emptyObject _ => exact absurd (hbytes 0x7B (by simp)) (by decide)
  | object _ => exact absurd (hbytes 0x7B (by simp)) (by decide)

/-- A byte in front of a value makes a value only of a number. -/
theorem value_cons {b : UInt8} {bs : Bytes} (h : Value bs) (hcons : Value (b :: bs)) :
    Number bs := by
  have hopen : ¬ (b = 0x5B ∨ b = 0x7B) := fun hb => not_value_open hb h hcons
  obtain ⟨first, rest, rfl, hfirst⟩ := value_first h
  generalize hv : b :: first :: rest = v at hcons
  cases hcons with
  | null =>
      cases hv
      exact absurd hfirst (by decide)
  | true =>
      cases hv
      exact absurd hfirst (by decide)
  | false =>
      cases hv
      exact absurd hfirst (by decide)
  | number hn =>
      subst hv
      exact number_of_bytes h fun c hc => hn.bytes c (List.mem_cons_of_mem _ hc)
  | string hcs =>
      -- the value ends in the closing quote, so its first byte is one too
      obtain ⟨rfl, hbs⟩ := List.cons.inj hv
      rw [hbs] at h
      rcases value_last h with hb | hb | ⟨-, cs, rfl, -⟩
      · exact absurd hb (by decide)
      · exact absurd hb (by decide)
      · exact absurd hcs (not_chars_quote cs)
  | emptyArray _ => exact absurd (.inl (List.cons.inj hv).1) hopen
  | array _ => exact absurd (.inl (List.cons.inj hv).1) hopen
  | emptyObject _ => exact absurd (.inr (List.cons.inj hv).1) hopen
  | object _ => exact absurd (.inr (List.cons.inj hv).1) hopen

/-! ## Texts -/

/-- A text starts with space or with its value. -/
theorem text_first {b : UInt8} {bs : Bytes} (h : Text (b :: bs)) : isSpace b ∨ isFirst b := by
  obtain ⟨before, v, after, hbs, hbefore, hv, -⟩ := h
  cases before with
  | nil =>
      obtain ⟨first, rest, rfl, hfirst⟩ := value_first hv
      obtain ⟨rfl, -⟩ := List.cons.inj hbs
      exact .inr hfirst
  | cons c before =>
      obtain ⟨rfl, -⟩ := List.cons.inj hbs
      exact .inl (hbefore b (by simp))

/-- A text without space at either end is its value. -/
theorem value_of_text {b c : UInt8} {bs : Bytes} (h : Text (b :: bs ++ [c]))
    (hb : ¬ isSpace b) (hc : ¬ isSpace c) : Value (b :: bs ++ [c]) := by
  obtain ⟨before, v, after, hbs, hbefore, hv, hafter⟩ := h
  obtain rfl : before = [] := by
    cases before with
    | nil => rfl
    | cons d before =>
        obtain ⟨rfl, -⟩ := List.cons.inj hbs
        exact absurd (hbefore b (by simp)) hb
  obtain rfl : after = [] := by
    rcases List.eq_nil_or_concat after with rfl | ⟨after, d, rfl⟩
    · rfl
    · rw [List.concat_eq_append, ← List.append_assoc] at hbs
      obtain ⟨-, hlast⟩ := List.append_inj' hbs rfl
      obtain rfl := List.singleton_inj.mp hlast
      exact absurd (hafter c (by simp)) hc
  rw [hbs]
  simpa using hv

/-- A byte in front of a value makes a text only if it is space or the value a number. -/
theorem text_cons {b : UInt8} {bs : Bytes} (h : Value bs) (hcons : Text (b :: bs)) :
    isSpace b ∨ (isFirst b ∧ Number bs) := by
  rcases text_first hcons with hb | hb
  · exact .inl hb
  by_cases hspace : isSpace b
  · exact .inl hspace
  · refine .inr ⟨hb, value_cons (b := b) h ?_⟩
    rcases List.eq_nil_or_concat bs with rfl | ⟨front, c, rfl⟩
    · obtain ⟨_, _, hnil, -⟩ := value_first h
      cases hnil
    · rw [List.concat_eq_append] at h hcons ⊢
      exact value_of_text hcons hspace (value_last_not_space h)

end Bws.Base.Json
