import Bws.Base.JsonText

/-!
# Printing JSON

JSON values and their compact texts, with nothing between the tokens. Strings escape quotes,
backslashes and control characters, and keep all other characters as they are. `print_value` says
that every text is a value of the grammar.
-/

namespace Bws.Base.Json

/-- A JSON value whose numbers are integers. The members of an object come in the order in which
they are printed. -/
inductive Tree where
  | null
  | bool (b : Bool)
  | number (n : Int)
  | string (s : String)
  | array (elements : List Tree)
  | object (members : List (String × Tree))

/-- A character inside a string. -/
def escape (c : Char) : List Char :=
  let backslash := Char.ofNat 0x5C
  if c.toNat = 0x22 ∨ c.toNat = 0x5C then [backslash, c]
  else if c.toNat = 0x08 then [backslash, 'b']
  else if c.toNat = 0x09 then [backslash, 't']
  else if c.toNat = 0x0A then [backslash, 'n']
  else if c.toNat = 0x0C then [backslash, 'f']
  else if c.toNat = 0x0D then [backslash, 'r']
  else if c.toNat < 0x20 then
    [backslash, 'u', '0', '0', Nat.digitChar (c.toNat / 16), Nat.digitChar (c.toNat % 16)]
  else [c]

/-- A string between quotes. -/
def quote (s : String) : String := "\"" ++ String.ofList (s.toList.flatMap escape) ++ "\""

namespace Tree

mutual

/-- The text of a value. -/
def print : Tree → String
  | .null => "null"
  | .bool true => "true"
  | .bool false => "false"
  | .number n => toString n
  | .string s => quote s
  | .array elements => "[" ++ ",".intercalate (printElements elements) ++ "]"
  | .object members => "\x7b" ++ ",".intercalate (printMembers members) ++ "\x7d"

/-- The texts of the values of an array. -/
def printElements : List Tree → List String
  | [] => []
  | element :: elements => print element :: printElements elements

/-- The texts of the members of an object. -/
def printMembers : List (String × Tree) → List String
  | [] => []
  | (name, value) :: members => (quote name ++ ":" ++ print value) :: printMembers members

end

end Tree

/-! ## Bytes of a text -/

/-- The bytes of a string. -/
def utf8 (s : String) : Bytes := s.toByteArray.data.toList

/-- Strings behind one another have their bytes behind one another. -/
theorem utf8_append (s t : String) : utf8 (s ++ t) = utf8 s ++ utf8 t := by
  simp [utf8, String.toByteArray_append]

/-- The bytes of a list of characters. -/
theorem utf8_of_list (cs : List Char) :
    utf8 (String.ofList cs) = cs.flatMap String.utf8EncodeChar := by
  simp [utf8, List.utf8Encode]

/-- The bytes of strings with one between them. -/
theorem utf8_intercalate (s : String) (ts : List String) :
    utf8 (s.intercalate ts) = (utf8 s).intercalate (ts.map utf8) := by
  induction ts with
  | nil => rfl
  | cons t ts ih =>
      cases ts with
      | nil => simp
      | cons u us =>
          rw [String.intercalate_cons_cons, utf8_append, utf8_append, ih]
          simp

/-! ## Strings -/

/-- A byte that stands for itself inside a string. -/
def Plain (b : UInt8) : Prop := 0x20 ≤ b ∧ b ≠ 0x22 ∧ b ≠ 0x5C

/-- Bytes that stand for themselves in front of the inside of a string. -/
theorem chars_of_plain {bs cs : Bytes} (hbs : ∀ b ∈ bs, Plain b) (h : Chars cs) :
    Chars (bs ++ cs) := by
  induction bs with
  | nil => exact h
  | cons b bs ih =>
      obtain ⟨⟨hlow, hquote, hbackslash⟩, hrest⟩ := List.forall_mem_cons.mp hbs
      exact .plain b _ hlow hquote hbackslash (ih hrest)

/-- A byte above 127 stands for itself. -/
theorem plain_of_high {n : Nat} (h : 0x80 ≤ n % 256) : Plain (UInt8.ofNat n) := by
  have hnat : (UInt8.ofNat n).toNat = n % 256 := rfl
  refine ⟨?_, fun heq => ?_, fun heq => ?_⟩
  · rw [UInt8.le_iff_toNat_le, hnat]
    exact Nat.le_trans (by decide) h
  · rw [heq] at hnat
    exact absurd (hnat ▸ h) (by decide)
  · rw [heq] at hnat
    exact absurd (hnat ▸ h) (by decide)

/-- So do the bytes of a character that is not escaped. -/
theorem plain_of_char {c : Char} (hlow : 0x20 ≤ c.toNat)
    (hescaped : ¬ (c.toNat = 0x22 ∨ c.toNat = 0x5C)) :
    ∀ b ∈ String.utf8EncodeChar c, Plain b := by
  have hnat : c.val.toNat = c.toNat := rfl
  unfold String.utf8EncodeChar
  simp only [hnat]
  split
  · next hascii =>
      have hall : ∀ n < 0x80, 0x20 ≤ n → ¬ (n = 0x22 ∨ n = 0x5C) → 0x20 ≤ UInt8.ofNat n ∧
          UInt8.ofNat n ≠ 0x22 ∧ UInt8.ofNat n ≠ 0x5C := by decide
      exact List.forall_mem_singleton.mpr (hall _ (by omega) hlow hescaped)
  · split
    · simp only [List.forall_mem_cons, List.not_mem_nil, false_implies, implies_true, and_true]
      exact ⟨plain_of_high (by omega), plain_of_high (by omega)⟩
    · split
      · simp only [List.forall_mem_cons, List.not_mem_nil, false_implies, implies_true, and_true]
        exact ⟨plain_of_high (by omega), plain_of_high (by omega), plain_of_high (by omega)⟩
      · simp only [List.forall_mem_cons, List.not_mem_nil, false_implies, implies_true, and_true]
        exact ⟨plain_of_high (by omega), plain_of_high (by omega), plain_of_high (by omega),
          plain_of_high (by omega)⟩

/-- A character is its code point. -/
theorem char_of_code {c : Char} {n : Nat} (h : c.toNat = n) : c = Char.ofNat n := by
  rw [← h, Char.ofNat_toNat]

/-- The digits of an escaped character. -/
theorem hex_digit_char {d : Nat} (h : d < 16) : ∃ b, isHexDigit b ∧
    String.utf8EncodeChar (Nat.digitChar d) = [b] := by
  have hall : ∀ d < 16, isHexDigit (UInt8.ofNat (Nat.digitChar d).toNat) ∧
      String.utf8EncodeChar (Nat.digitChar d) = [UInt8.ofNat (Nat.digitChar d).toNat] := by decide
  exact ⟨_, hall d h⟩

/-- A character in front of the inside of a string. -/
theorem chars_escape (c : Char) {bs : Bytes} (h : Chars bs) :
    Chars ((escape c).flatMap String.utf8EncodeChar ++ bs) := by
  unfold escape
  simp only
  split
  · next hself =>
      rcases hself with hc | hc <;> rw [char_of_code hc]
      · exact .escape 0x22 bs (by decide) h
      · exact .escape 0x5C bs (by decide) h
  · next hescaped =>
      -- the short escapes, any other control character, and a character that stands for itself
      repeat' split
      · exact .escape 0x62 bs (by decide) h
      · exact .escape 0x74 bs (by decide) h
      · exact .escape 0x6E bs (by decide) h
      · exact .escape 0x66 bs (by decide) h
      · exact .escape 0x72 bs (by decide) h
      · next hcontrol =>
          obtain ⟨x, hx, hx'⟩ := hex_digit_char (d := c.toNat / 16) (by omega)
          obtain ⟨y, hy, hy'⟩ := hex_digit_char (d := c.toNat % 16) (by omega)
          simp only [List.flatMap_cons, List.flatMap_nil, hx', hy']
          exact .unicode 0x30 0x30 x y bs (by decide) (by decide) hx hy h
      · next hlow =>
          rw [List.flatMap_singleton]
          exact chars_of_plain (plain_of_char (Nat.le_of_not_lt hlow) hescaped) h

/-- The inside of a printed string. -/
theorem chars_escapes (cs : List Char) :
    Chars ((cs.flatMap escape).flatMap String.utf8EncodeChar) := by
  induction cs with
  | nil => exact .nil
  | cons c cs ih =>
      rw [List.flatMap_cons, List.flatMap_append]
      exact chars_escape c ih

/-- The bytes of a printed string. -/
theorem utf8_quote (s : String) : ∃ cs, Chars cs ∧ utf8 (quote s) = 0x22 :: (cs ++ [0x22]) := by
  have hmark : utf8 "\"" = [0x22] := by decide
  refine ⟨_, chars_escapes s.toList, ?_⟩
  rw [quote, utf8_append, utf8_append, hmark, utf8_of_list]
  rfl

/-- An escaped character takes no fewer bytes than the character. -/
theorem escape_size (c : Char) : (String.utf8EncodeChar c).length ≤
    ((escape c).flatMap String.utf8EncodeChar).length := by
  unfold escape
  simp only
  split
  · simp
  · repeat' split
    · next hc => rw [char_of_code hc]; decide
    · next hc => rw [char_of_code hc]; decide
    · next hc => rw [char_of_code hc]; decide
    · next hc => rw [char_of_code hc]; decide
    · next hc => rw [char_of_code hc]; decide
    · have hsize := c.utf8Size_le_four
      obtain ⟨x, -, hx⟩ := hex_digit_char (d := c.toNat / 16) (by omega)
      obtain ⟨y, -, hy⟩ := hex_digit_char (d := c.toNat % 16) (by omega)
      have hsizes : (Char.ofNat 0x5C).utf8Size = 1 ∧ 'u'.utf8Size = 1 ∧ '0'.utf8Size = 1 := by
        decide
      simp only [List.flatMap_cons, List.flatMap_nil, hx, hy, List.length_append,
        String.length_utf8EncodeChar, List.length_singleton]
      omega
    · simp

/-- A string between quotes takes two bytes more at least. -/
theorem quote_size (s : String) : s.utf8ByteSize + 2 ≤ (quote s).utf8ByteSize := by
  have hescapes : ∀ cs : List Char, (cs.flatMap String.utf8EncodeChar).length ≤
      ((cs.flatMap escape).flatMap String.utf8EncodeChar).length := by
    intro cs
    induction cs with
    | nil => exact Nat.le_refl 0
    | cons c cs ih =>
        simp only [List.flatMap_cons, List.flatMap_append, List.length_append]
        exact Nat.add_le_add (escape_size c) ih
  have hlength : ∀ s : String, (utf8 s).length = s.utf8ByteSize := fun _ => rfl
  have hmark : ("\"" : String).utf8ByteSize = 1 := by decide
  have hinside := hescapes s.toList
  rw [← utf8_of_list, ← utf8_of_list, String.ofList_toList, hlength, hlength] at hinside
  rw [quote, String.utf8ByteSize_append, String.utf8ByteSize_append, hmark]
  omega

/-! ## Numbers -/

/-- A digit is a byte. -/
theorem digit_char {d : Nat} (h : d < 10) : ∃ b, isDigit b ∧ (b = 0x30 → d = 0) ∧
    String.utf8EncodeChar (Nat.digitChar d) = [b] := by
  have hall : ∀ d < 10, isDigit (UInt8.ofNat (Nat.digitChar d).toNat) ∧
      (UInt8.ofNat (Nat.digitChar d).toNat = 0x30 → d = 0) ∧
      String.utf8EncodeChar (Nat.digitChar d) = [UInt8.ofNat (Nat.digitChar d).toNat] := by decide
  exact ⟨_, hall d h⟩

/-- The digits of a positive number do not start with 0. -/
theorem digits_of_pos {n : Nat} (h : 0 < n) : ∃ d ds, isDigit d ∧ d ≠ 0x30 ∧
    (∀ b ∈ ds, isDigit b) ∧ (Nat.toDigits 10 n).flatMap String.utf8EncodeChar = d :: ds := by
  induction n using Nat.strongRecOn with
  | ind n ih =>
      by_cases hn : n < 10
      · obtain ⟨b, hb, hzero, hchar⟩ := digit_char hn
        refine ⟨b, [], hb, fun heq => absurd (hzero heq) (Nat.ne_of_gt h), by simp, ?_⟩
        rw [Nat.toDigits_of_lt_base hn, List.flatMap_singleton, hchar]
      · obtain ⟨d, ds, hd, hne, hds, hfront⟩ := ih (n / 10) (by omega) (by omega)
        obtain ⟨b, hb, -, hchar⟩ := digit_char (Nat.mod_lt n (by decide))
        refine ⟨d, ds ++ [b], hd, hne, List.forall_mem_append.mpr ⟨hds, by simpa using hb⟩, ?_⟩
        rw [Nat.toDigits_of_base_le (by decide) (Nat.le_of_not_lt hn), List.flatMap_append, hfront,
          List.flatMap_singleton, hchar]
        rfl

/-- A natural number is printed without a leading 0. -/
theorem integer_nat (n : Nat) : Integer (utf8 (toString n)) := by
  have htext : utf8 (toString n) = (Nat.toDigits 10 n).flatMap String.utf8EncodeChar := by
    rw [Nat.toString_eq_repr, Nat.repr, utf8_of_list]
  rw [htext]
  rcases Nat.eq_zero_or_pos n with rfl | hn
  · exact .zero
  · obtain ⟨d, ds, hd, hne, hds, hbytes⟩ := digits_of_pos hn
    rw [hbytes]
    exact .digits d ds hd hne hds

/-- An integer is a number of the grammar. -/
theorem number_int (n : Int) : Number (utf8 (toString n)) := by
  have hnat : ∀ (sign : Bytes) (m : Nat), sign = [] ∨ sign = [0x2D] →
      Number (sign ++ utf8 (toString m)) := fun sign m hsign => by
    have hnumber := Number.mk sign (utf8 (toString m)) [] [] hsign (integer_nat m) .none .none
    rwa [List.append_nil, List.append_nil] at hnumber
  rw [Int.toString_eq_repr, Int.repr_eq_if]
  split
  · exact hnat [] _ (.inl rfl)
  · rw [utf8_append]
    exact hnat [0x2D] _ (.inr rfl)

/-! ## Values -/

/-- Parts with commas between them, when one part is enough and another may stand in front. -/
theorem parts_intercalate {part parts : Part}
    (last : ∀ {bs}, Grammar part bs → Grammar parts bs)
    (more : ∀ {bs cs}, Grammar part bs → Grammar parts cs → Grammar parts (bs ++ 0x2C :: cs))
    {bs : Bytes} {bss : List Bytes} (hbs : Grammar part bs) (h : ∀ bs ∈ bss, Grammar part bs) :
    Grammar parts ([(0x2C : UInt8)].intercalate (bs :: bss)) := by
  induction bss generalizing bs with
  | nil =>
      rw [List.intercalate_singleton]
      exact last hbs
  | cons next bss ih =>
      obtain ⟨hnext, hrest⟩ := List.forall_mem_cons.mp h
      rw [List.intercalate_cons_cons, List.append_assoc]
      exact more hbs (ih hnext hrest)

/-- There may be no space between tokens. -/
theorem no_spaces : Spaces [] := fun _ hb => absurd hb List.not_mem_nil

/-- A value is an element, with no space around it. -/
theorem element_of_value {bs : Bytes} (h : Value bs) : Grammar .element bs := by
  have helement := Grammar.element no_spaces h no_spaces
  rwa [List.nil_append, List.append_nil] at helement

/-- A name and a value make a member. -/
theorem member_of_value {name : String} {s : String} (h : Value (utf8 s)) :
    Grammar .member (utf8 (quote name ++ ":" ++ s)) := by
  obtain ⟨cs, hcs, hname⟩ := utf8_quote name
  have hcolon : utf8 ":" = [0x3A] := by decide
  have hmember := Grammar.member no_spaces hcs no_spaces (element_of_value h)
  rw [utf8_append, utf8_append, hname, hcolon]
  simpa using hmember

/-- The text of an array, given those of its values. -/
theorem value_of_elements {ss : List String} (h : ∀ s ∈ ss, Value (utf8 s)) :
    Value (utf8 ("[" ++ ",".intercalate ss ++ "]")) := by
  have hmarks : utf8 "[" = [0x5B] ∧ utf8 "," = [0x2C] ∧ utf8 "]" = [0x5D] := by decide
  obtain ⟨hopen, hcomma, hclose⟩ := hmarks
  rw [utf8_append, utf8_append, utf8_intercalate, hopen, hcomma, hclose]
  cases ss with
  | nil => exact .emptyArray no_spaces
  | cons s ss =>
      obtain ⟨hs, hrest⟩ := List.forall_mem_cons.mp h
      exact .array (parts_intercalate .lastElement .elements (element_of_value hs)
        (List.forall_mem_map.mpr fun t ht => element_of_value (hrest t ht)))

/-- The text of an object, given those of its members. -/
theorem value_of_members {ss : List String} (h : ∀ s ∈ ss, Grammar .member (utf8 s)) :
    Value (utf8 ("\x7b" ++ ",".intercalate ss ++ "\x7d")) := by
  have hmarks : utf8 "\x7b" = [0x7B] ∧ utf8 "," = [0x2C] ∧ utf8 "\x7d" = [0x7D] := by decide
  obtain ⟨hopen, hcomma, hclose⟩ := hmarks
  rw [utf8_append, utf8_append, utf8_intercalate, hopen, hcomma, hclose]
  cases ss with
  | nil => exact .emptyObject no_spaces
  | cons s ss =>
      obtain ⟨hs, hrest⟩ := List.forall_mem_cons.mp h
      exact .object (parts_intercalate .lastMember .members hs (List.forall_mem_map.mpr hrest))

mutual

/-- The text of a value is a value of the grammar. -/
theorem print_value : ∀ tree : Tree, Value (utf8 tree.print)
  | .null => by
      have htext : utf8 "null" = [0x6E, 0x75, 0x6C, 0x6C] := by decide
      rw [Tree.print, htext]
      exact .null
  | .bool true => by
      have htext : utf8 "true" = [0x74, 0x72, 0x75, 0x65] := by decide
      rw [Tree.print, htext]
      exact .true
  | .bool false => by
      have htext : utf8 "false" = [0x66, 0x61, 0x6C, 0x73, 0x65] := by decide
      rw [Tree.print, htext]
      exact .false
  | .number n => by
      rw [Tree.print]
      exact .number (number_int n)
  | .string s => by
      obtain ⟨cs, hcs, hbytes⟩ := utf8_quote s
      rw [Tree.print, hbytes]
      exact .string hcs
  | .array elements => by
      rw [Tree.print]
      exact value_of_elements (print_elements_value elements)
  | .object members => by
      rw [Tree.print]
      exact value_of_members (print_members_value members)

/-- So are the texts of the values of an array. -/
theorem print_elements_value : ∀ elements : List Tree,
    ∀ s ∈ Tree.printElements elements, Value (utf8 s)
  | [] => by simp [Tree.printElements]
  | element :: elements => by
      rw [Tree.printElements]
      exact List.forall_mem_cons.mpr ⟨print_value element, print_elements_value elements⟩

/-- The texts of the members of an object are members of the grammar. -/
theorem print_members_value : ∀ members : List (String × Tree),
    ∀ s ∈ Tree.printMembers members, Grammar .member (utf8 s)
  | [] => by simp [Tree.printMembers]
  | (name, value) :: members => by
      rw [Tree.printMembers]
      exact List.forall_mem_cons.mpr
        ⟨member_of_value (print_value value), print_members_value members⟩

end

end Bws.Base.Json
