import GameEngine.Library.JsonString
import GameEngine.Library.DecimalText

/-!
# Documents of JSON

`readDocument` reads a text of code points as a document of JSON: a value with white space around
it. A number without a fraction and an exponent is an integer, and another number is kept as its
digits with an exponent. When a name occurs twice in an object, `Json.get` takes the last value.

`Reads` says that a text is read as a value wherever it stands in a document. Its rules, one for
each kind of value, are how a program that writes a document is shown to write the one it means.
-/

set_option autoImplicit false
set_option relaxedAutoImplicit false

namespace GameEngine.Library

/-! ### Values -/

/-- A value. A decimal number is the coefficient times a power of ten. -/
inductive Json
  | null
  | boolean (value : Bool)
  | integer (value : ℤ)
  | decimal (coefficient exponent : ℤ)
  | string (value : List ℕ)
  | array (elements : List Json)
  | object (members : List (List ℕ × Json))

namespace Json

/-- The value of a name in an object. -/
def get (name : List ℕ) : Json → Option Json
  | object members => (members.reverse.find? fun member ↦ member.1 = name).map Prod.snd
  | _ => none

/-! ### Reading -/

/-- White space between the parts of a document. -/
def isWhite (c : ℕ) : Bool := c == 32 || c == 9 || c == 10 || c == 13

/-- Leaves out white space. -/
def skipWhite (text : List ℕ) : List ℕ := text.dropWhile isWhite

/-- A decimal digit. -/
def isDigitCode (c : ℕ) : Bool := 48 ≤ c && c ≤ 57

/-- The number that digits stand for. -/
def digitsValue (digits : List ℕ) : ℕ := digits.foldl (fun number c ↦ 10 * number + (c - 48)) 0

/-- Reads a character of a string as the code units it stands for. -/
def readChar : List ℕ → Option (List ℕ × List ℕ)
  | [] => none
  | c :: rest =>
    if c = backslash then
      match rest with
      | 117 :: first :: second :: third :: fourth :: rest => do
        let a ← hexDigit first
        let b ← hexDigit second
        let c ← hexDigit third
        let d ← hexDigit fourth
        return ([((a * 16 + b) * 16 + c) * 16 + d], rest)
      | letter :: rest => (escaped letter).map fun c ↦ ([c], rest)
      | [] => none
    else if 32 ≤ c ∧ c ≠ quotationMark ∧ c ≤ 0x10FFFF then some (utf16 c, rest)
    else none

/-- Reads the characters of a string, at most `count` of them, up to the quotation mark at its
end. -/
def readChars : ℕ → List ℕ → Option (List ℕ × List ℕ)
  | 0, _ => none
  | count + 1, text =>
    if text.head? = some quotationMark then some ([], text.tail)
    else do
      let (units, rest) ← readChar text
      let (value, rest) ← readChars count rest
      return (units ++ value, rest)

/-- Reads a string. -/
def readString (text : List ℕ) : Option (List ℕ × List ℕ) :=
  if text.head? = some quotationMark then readChars text.length text.tail else none

/-- Reads the digits before a point: a zero, or digits that start with another one. -/
def readWhole (text : List ℕ) : Option (List ℕ × List ℕ) :=
  if text.head? = some 48 then some ([48], text.tail)
  else if (text.span isDigitCode).1 = [] then none
  else some (text.span isDigitCode)

/-- Reads a point and digits, if they are there. -/
def readFraction (text : List ℕ) : Option (List ℕ × List ℕ) :=
  if text.head? = some 46 ∧ (text.tail.span isDigitCode).1 ≠ [] then
    some (text.tail.span isDigitCode)
  else none

/-- Reads the letter of an exponent, a sign if there is one, and digits, if they are there. -/
def readExponent (text : List ℕ) : Option (ℤ × List ℕ) :=
  if text.head? = some 101 ∨ text.head? = some 69 then
    let signed := text.tail
    let digits :=
      (if signed.head? = some 43 ∨ signed.head? = some 45 then signed.tail else signed).span
        isDigitCode
    if digits.1 = [] then none
    else some (if signed.head? = some 45 then -digitsValue digits.1 else digitsValue digits.1,
      digits.2)
  else none

/-- Reads a number. -/
def readNumber (text : List ℕ) : Option (Json × List ℕ) := do
  let negative : Bool := text.head? = some 45
  let sign : ℤ := if negative then -1 else 1
  let (whole, rest) ← readWhole (if negative then text.tail else text)
  match readFraction rest, readExponent ((readFraction rest).elim rest Prod.snd) with
  | none, none => return (integer (sign * digitsValue whole), rest)
  | none, some (exponent, rest) => return (decimal (sign * digitsValue whole) exponent, rest)
  | some (fraction, rest), none =>
    return (decimal (sign * digitsValue (whole ++ fraction)) (-fraction.length), rest)
  | some (fraction, _), some (exponent, rest) =>
    return (decimal (sign * digitsValue (whole ++ fraction)) (exponent - fraction.length), rest)

/-- Reads items that are separated by commas, at most `count` of them, up to the bracket that closes
them. -/
def readItems {Item : Type} (item : List ℕ → Option (Item × List ℕ)) (close : ℕ) :
    ℕ → List ℕ → Option (List Item × List ℕ)
  | 0, _ => none
  | count + 1, text => do
    let (first, rest) ← item text
    match skipWhite rest with
    | [] => none
    | c :: rest =>
      if c = 44 then do
        let (others, rest) ← readItems item close count rest
        return (first :: others, rest)
      else if c = close then return ([first], rest)
      else none

/-- Reads the name and the value of a member. -/
def readMember (value : List ℕ → Option (Json × List ℕ)) (text : List ℕ) :
    Option ((List ℕ × Json) × List ℕ) := do
  let (name, rest) ← readString (skipWhite text)
  match skipWhite rest with
  | [] => none
  | c :: rest =>
    if c = 58 then do
      let (value, rest) ← value rest
      return ((name, value), rest)
    else none

/-- Reads the items up to a bracket, of which there may be none. -/
def readBracket {Item : Type} (item : List ℕ → Option (Item × List ℕ)) (close : ℕ)
    (text : List ℕ) : Option (List Item × List ℕ) :=
  if (skipWhite text).head? = some close then some ([], (skipWhite text).tail)
  else readItems item close text.length text

/-- Reads a word. -/
def readWord (word : String) (value : Json) (text : List ℕ) : Option (Json × List ℕ) :=
  let codes := word.toList.map Char.toNat
  if codes <+: text then some (value, text.drop codes.length) else none

/-- Reads a value that is nested at most `depth` times. -/
def readValue : ℕ → List ℕ → Option (Json × List ℕ)
  | 0, _ => none
  | depth + 1, text =>
    let text := skipWhite text
    match text with
    | [] => none
    | c :: rest =>
      if c = quotationMark then (readString text).map fun (value, rest) ↦ (string value, rest)
      else if c = 91 then
        (readBracket (readValue depth) 93 rest).map fun (elements, rest) ↦ (array elements, rest)
      else if c = 123 then
        (readBracket (readMember (readValue depth)) 125 rest).map fun (members, rest) ↦
          (object members, rest)
      else if c = 110 then readWord "null" null text
      else if c = 116 then readWord "true" (boolean true) text
      else if c = 102 then readWord "false" (boolean false) text
      else readNumber text

/-- Reads a document. -/
def readDocument (text : List ℕ) : Option Json := do
  let (value, rest) ← readValue text.length text
  if skipWhite rest = [] then some value else none

/-! ### Texts that are read as values -/

/-- What follows a value does not go on with a number. -/
def Delimits (rest : List ℕ) : Prop :=
  ∀ c ∈ rest.head?, isDigitCode c = false ∧ c ≠ 46 ∧ c ≠ 101 ∧ c ≠ 69

/-- A text is read as a value that is nested at most `depth` times. -/
def Reads (depth : ℕ) (text : List ℕ) (value : Json) : Prop :=
  ∀ more rest, Delimits rest → readValue (depth + more) (text ++ rest) = some (value, rest)

/-- A text is read as a member of an object. -/
def ReadsMember (depth : ℕ) (text : List ℕ) (member : List ℕ × Json) : Prop :=
  ∀ more rest, Delimits rest →
    readMember (readValue (depth + more)) (text ++ rest) = some (member, rest)

/-- White space only. -/
def IsWhite (text : List ℕ) : Prop := ∀ c ∈ text, isWhite c = true

instance (text : List ℕ) : Decidable (IsWhite text) :=
  inferInstanceAs (Decidable (∀ c ∈ text, isWhite c = true))

theorem skipWhite_append {white : List ℕ} (hwhite : IsWhite white) (rest : List ℕ) :
    skipWhite (white ++ rest) = skipWhite rest := by
  induction white with
  | nil => rfl
  | cons c white ih =>
    rw [List.cons_append, skipWhite, List.dropWhile_cons_of_pos (hwhite c List.mem_cons_self)]
    exact ih fun other hother ↦ hwhite other (List.mem_cons_of_mem _ hother)

theorem skipWhite_cons {c : ℕ} (hc : isWhite c = false) (rest : List ℕ) :
    skipWhite (c :: rest) = c :: rest :=
  List.dropWhile_cons_of_neg (by simp [hc])

theorem delimits_cons {c : ℕ} (hc : isDigitCode c = false) (hother : c ≠ 46 ∧ c ≠ 101 ∧ c ≠ 69)
    (rest : List ℕ) : Delimits (c :: rest) := by
  intro first hfirst
  obtain rfl : c = first := by simpa using hfirst
  exact ⟨hc, hother⟩

/-- White space and a bracket or a comma delimit a value. -/
theorem delimits_white {white : List ℕ} (hwhite : IsWhite white) {c : ℕ}
    (hc : isDigitCode c = false) (hother : c ≠ 46 ∧ c ≠ 101 ∧ c ≠ 69) (rest : List ℕ) :
    Delimits (white ++ c :: rest) := by
  cases white with
  | nil => exact delimits_cons hc hother rest
  | cons first white =>
    have hfirst := hwhite first List.mem_cons_self
    simp only [isWhite, Bool.or_eq_true, beq_iff_eq] at hfirst
    refine delimits_cons ?_ ?_ _
    · simp [isDigitCode]
      omega
    · omega

/-- White space before a value is left out. -/
theorem Reads.white {depth : ℕ} {text : List ℕ} {value : Json} (hreads : Reads depth text value)
    (hdepth : depth ≠ 0) {white : List ℕ} (hwhite : IsWhite white) :
    Reads depth (white ++ text) value := by
  intro more rest hrest
  obtain ⟨less, rfl⟩ := Nat.exists_eq_succ_of_ne_zero hdepth
  have hskip : skipWhite (white ++ text ++ rest) = skipWhite (text ++ rest) := by
    rw [List.append_assoc, skipWhite_append hwhite]
  rw [← hreads more rest hrest, Nat.succ_add, readValue, readValue, hskip]

/-- A value may be nested more. -/
theorem Reads.mono {depth depth' : ℕ} {text : List ℕ} {value : Json}
    (hreads : Reads depth text value) (hle : depth ≤ depth') : Reads depth' text value := by
  obtain ⟨more, rfl⟩ := Nat.exists_eq_add_of_le hle
  intro more' rest hrest
  rw [Nat.add_assoc]
  exact hreads (more + more') rest hrest

/-! ### Strings -/

theorem backslash_ne : backslash ≠ quotationMark := by decide

theorem readChars_of_jsonChars {chars value : List ℕ} (hchars : JsonChars chars value)
    (rest : List ℕ) : ∀ count, chars.length < count →
      readChars count (chars ++ quotationMark :: rest) = some (value, rest) := by
  induction hchars with
  | nil =>
    rintro (_ | count) hcount
    · exact absurd hcount (Nat.not_lt_zero _)
    · simp [readChars]
  | unescaped hself _ ih =>
    rintro (_ | count) hcount
    · exact absurd hcount (Nat.not_lt_zero _)
    obtain ⟨hspace, hquote, hbackslash, hlast⟩ := hself
    rw [List.length_cons] at hcount
    simp [readChars, readChar, hspace, hquote, hbackslash, hlast, ih count (by omega)]
  | @escape letter c text value hletter _ ih =>
    rintro (_ | count) hcount
    · exact absurd hcount (Nat.not_lt_zero _)
    have hhex : letter ≠ 117 := by
      rintro rfl
      simp [escaped] at hletter
    rw [List.length_cons, List.length_cons] at hcount
    have hread : readChar (backslash :: letter :: (text ++ quotationMark :: rest)) =
        some ([c], text ++ quotationMark :: rest) := by
      simp [readChar, hhex, hletter]
    simp [readChars, hread, ih count (by omega), backslash_ne]
  | hex ha hb hc hd _ ih =>
    rintro (_ | count) hcount
    · exact absurd hcount (Nat.not_lt_zero _)
    simp only [List.length_cons] at hcount
    simp [readChars, readChar, ha, hb, hc, hd, ih count (by omega), backslash_ne]

theorem readString_of_jsonString {text value : List ℕ} (hstring : JsonString text value)
    (rest : List ℕ) : readString (text ++ rest) = some (value, rest) := by
  obtain ⟨chars, rfl, hchars⟩ := hstring
  have hread := readChars_of_jsonChars hchars rest
    (quotationMark :: chars ++ [quotationMark] ++ rest).length
    (by simp only [List.length_append, List.length_cons]; omega)
  rw [readString]
  simpa using hread

/-- A string is read as its value. -/
theorem reads_string {text value : List ℕ} (hstring : JsonString text value) :
    Reads 1 text (string value) := by
  intro more rest _
  have hread := readString_of_jsonString hstring rest
  obtain ⟨chars, rfl, hchars⟩ := hstring
  rw [Nat.add_comm, readValue]
  simp only [List.cons_append, List.append_assoc, List.nil_append] at hread ⊢
  simp only [skipWhite_cons (show isWhite quotationMark = false by decide), if_true, hread,
    Option.map_some]

/-! ### Natural numbers -/

theorem isDigitCode_toNat (byte : UInt8) : isDigitCode byte.toNat = isDigit byte := by
  simp [isDigitCode, isDigit, UInt8.le_iff_toNat_le]

theorem digitsValue_map (digits : List UInt8) :
    digitsValue (digits.map UInt8.toNat) = numberOf digits := by
  rw [digitsValue, List.foldl_map]
  rfl

/-- The digits of a number that is not zero do not start with a zero. -/
theorem head_natText {number : ℕ} (hnumber : number ≠ 0) : (natText number).head? ≠ some 48 := by
  have hfirst : ∀ width number, (fixedText (width + 1) number).head? =
      some (digitByte (number / 10 ^ width % 10)) := by
    intro width
    induction width with
    | zero => intro number; simp [fixedText]
    | succ width ih =>
      intro number
      rw [fixedText, List.head?_append_of_ne_nil _ (fixedText_ne_nil (Nat.succ_pos _) _), ih,
        Nat.div_div_eq_div_mul, ← pow_succ']
  have hlower : 1 ≤ number / 10 ^ Nat.log 10 number :=
    (Nat.one_le_div_iff (Nat.pow_pos (by decide))).mpr (Nat.pow_log_le_self 10 hnumber)
  have hupper : number / 10 ^ Nat.log 10 number < 10 := by
    rw [Nat.div_lt_iff_lt_mul (Nat.pow_pos (by decide)), ← pow_succ']
    exact Nat.lt_pow_succ_log_self (by decide) number
  rw [natText, hfirst, Nat.mod_eq_of_lt hupper, ne_eq, Option.some.injEq]
  intro heq
  have hbyte := toNat_digitByte hupper
  rw [heq] at hbyte
  have hzero : (48 : UInt8).toNat = 48 := rfl
  omega

/-- The digits of a natural number are read as the number. -/
theorem readWhole_natText (number : ℕ) {rest : List ℕ} (hrest : Delimits rest) :
    readWhole ((natText number).map UInt8.toNat ++ rest) =
      some ((natText number).map UInt8.toNat, rest) := by
  have hdigits : ∀ c ∈ (natText number).map UInt8.toNat, isDigitCode c = true := by
    intro c hc
    obtain ⟨byte, hbyte, rfl⟩ := List.mem_map.mp hc
    rw [isDigitCode_toNat]
    exact isDigit_of_mem_natText hbyte
  by_cases hzero : number = 0
  · subst hzero
    have htext : natText 0 = [48] := by decide
    rw [htext]
    rfl
  · have hspan : ((natText number).map UInt8.toNat ++ rest).span isDigitCode =
        ((natText number).map UInt8.toNat, rest) := by
      rw [List.span_eq_takeWhile_dropWhile, List.takeWhile_append_of_pos hdigits,
        List.dropWhile_append_of_pos hdigits]
      cases rest with
      | nil => simp
      | cons c rest =>
        have hc : ¬ isDigitCode c = true := by simp [(hrest c rfl).1]
        rw [List.takeWhile_cons_of_neg hc, List.dropWhile_cons_of_neg hc, List.append_nil]
    have hne : (natText number).map UInt8.toNat ≠ [] := by simp [natText_ne_nil]
    have hhead : ((natText number).map UInt8.toNat ++ rest).head? ≠ some 48 := by
      obtain ⟨first, others, hfirst⟩ := List.exists_cons_of_ne_nil (natText_ne_nil number)
      have hnot := head_natText hzero
      rw [hfirst] at hnot ⊢
      simpa using fun heq ↦ hnot (congrArg some (UInt8.toNat_inj.mp heq))
    rw [readWhole, if_neg hhead, hspan, if_neg hne]

/-- A natural number is read as itself. -/
theorem reads_integer (number : ℕ) :
    Reads 1 ((natText number).map UInt8.toNat) (integer number) := by
  intro more rest hrest
  have hwhole := readWhole_natText number hrest
  have hfraction : readFraction rest = none := if_neg fun hpoint ↦ by
    exact (hrest 46 hpoint.1).2.1 rfl
  have hexponent : readExponent rest = none := by
    refine if_neg ?_
    rintro (hletter | hletter)
    · exact (hrest 101 hletter).2.2.1 rfl
    · exact (hrest 69 hletter).2.2.2 rfl
  obtain ⟨first, others, hfirst⟩ := List.exists_cons_of_ne_nil (natText_ne_nil number)
  have hdigit : isDigitCode first.toNat = true := by
    rw [isDigitCode_toNat]
    exact isDigit_of_mem_natText (hfirst ▸ List.mem_cons_self)
  have hrange : 48 ≤ first.toNat ∧ first.toNat ≤ 57 := by simpa [isDigitCode] using hdigit
  have hwhite : isWhite first.toNat = false := by
    simp [isWhite]
    omega
  have hvalue : digitsValue ((natText number).map UInt8.toNat) = number := by
    rw [digitsValue_map, numberOf_natText]
  rw [Nat.add_comm, readValue]
  rw [hfirst, List.map_cons, List.cons_append] at hwhole ⊢
  rw [hfirst, List.map_cons] at hvalue
  rw [skipWhite_cons hwhite]
  dsimp only
  rw [if_neg (by unfold quotationMark; omega), if_neg (by omega), if_neg (by omega),
    if_neg (by omega), if_neg (by omega), if_neg (by omega)]
  have hsign : first.toNat ≠ 45 := by omega
  simp [readNumber, hsign, hwhole, hfraction, hexponent, hvalue]

/-! ### Brackets -/

/-- Items that are separated by commas are read one after the other. -/
theorem readItems_intercalate {Item : Type} {item : List ℕ → Option (Item × List ℕ)} {close : ℕ}
    (hclose : isDigitCode close = false ∧ isWhite close = false ∧ close ≠ 44 ∧ close ≠ 46 ∧
      close ≠ 101 ∧ close ≠ 69)
    {white last : List ℕ} (hlast : IsWhite last) (rest : List ℕ)
    {items : List (List ℕ × Item)} (hne : items ≠ [])
    (hitems : ∀ entry ∈ items, ∀ rest, Delimits rest →
      item (white ++ entry.1 ++ rest) = some (entry.2, rest)) : ∀ count, items.length ≤ count →
      readItems item close count
          (white ++ List.intercalate (44 :: white) (items.map Prod.fst) ++ last ++ close :: rest) =
        some (items.map Prod.snd, rest) := by
  induction items with
  | nil => exact absurd rfl hne
  | cons entry items ih =>
    rintro (_ | count) hcount
    · exact absurd hcount (Nat.not_succ_le_zero _)
    obtain ⟨text, value⟩ := entry
    have hentry := hitems (text, value) List.mem_cons_self
    by_cases hnil : items = []
    · subst hnil
      have hread := hentry (last ++ close :: rest)
        (delimits_white hlast hclose.1 hclose.2.2.2 rest)
      have hskip : skipWhite (last ++ close :: rest) = close :: rest := by
        rw [skipWhite_append hlast, skipWhite_cons hclose.2.1]
      have htext : white ++ List.intercalate (44 :: white) ([(text, value)].map Prod.fst) ++ last ++
          close :: rest = white ++ text ++ (last ++ close :: rest) := by
        simp [List.intercalate]
      rw [htext, readItems, hread]
      simp [hskip, hclose.2.2.1]
    · have hothers := ih hnil (fun entry hentry ↦ hitems entry (List.mem_cons_of_mem _ hentry))
        count (by simpa using hcount)
      have htext : white ++
          List.intercalate (44 :: white) (((text, value) :: items).map Prod.fst) ++ last ++
          close :: rest = white ++ text ++ (44 :: (white ++
            List.intercalate (44 :: white) (items.map Prod.fst) ++ last ++ close :: rest)) := by
        rw [List.map_cons, List.intercalate_cons_of_ne_nil (by simpa using hnil)]
        simp
      have hread := hentry (44 :: (white ++
            List.intercalate (44 :: white) (items.map Prod.fst) ++ last ++ close :: rest))
        (delimits_cons (by decide) (by decide) _)
      rw [htext, readItems, hread]
      dsimp only [Option.bind_eq_bind, Option.bind_some]
      rw [skipWhite_cons (show isWhite 44 = false by decide)]
      dsimp only
      rw [if_pos rfl, hothers]
      rfl

theorem length_le_intercalate (separator : ℕ) (white : List ℕ) (texts : List (List ℕ)) :
    texts.length ≤ (List.intercalate (separator :: white) texts).length + 1 := by
  induction texts with
  | nil => exact Nat.zero_le _
  | cons text texts ih =>
    by_cases hnil : texts = []
    · subst hnil
      simp
    · rw [List.intercalate_cons_of_ne_nil hnil]
      simp only [List.length_cons, List.length_append]
      omega

/-- Items in brackets are read one after the other. Assumes: no item starts with the bracket. -/
theorem readBracket_intercalate {Item : Type} (item : List ℕ → Option (Item × List ℕ)) (close : ℕ)
    (hclose : isDigitCode close = false ∧ isWhite close = false ∧ close ≠ 44 ∧ close ≠ 46 ∧
      close ≠ 101 ∧ close ≠ 69)
    (hstart : ∀ text, (skipWhite text).head? = some close → item text = none)
    (white : List ℕ) {last : List ℕ} (hlast : IsWhite last) (rest : List ℕ)
    {items : List (List ℕ × Item)} (hne : items ≠ [])
    (hitems : ∀ entry ∈ items, ∀ rest, Delimits rest →
      item (white ++ entry.1 ++ rest) = some (entry.2, rest)) :
    readBracket item close
        (white ++ List.intercalate (44 :: white) (items.map Prod.fst) ++ last ++ close :: rest) =
      some (items.map Prod.snd, rest) := by
  have hread := readItems_intercalate hclose hlast rest hne hitems
  have hlength := length_le_intercalate 44 white (items.map Prod.fst)
  rw [List.length_map] at hlength
  rw [readBracket, if_neg, hread _ (by simp; omega)]
  intro hhead
  have hnone := hread (items.length + 1) (Nat.le_succ _)
  rw [readItems, hstart _ hhead] at hnone
  simp at hnone

/-- A value does not start with a bracket that closes. -/
theorem readValue_eq_none {depth close : ℕ} (hclose : close = 93 ∨ close = 125) {text : List ℕ}
    (hhead : (skipWhite text).head? = some close) : readValue depth text = none := by
  cases depth with
  | zero => rfl
  | succ depth =>
    obtain ⟨rest, hrest⟩ : ∃ rest, skipWhite text = close :: rest := by
      cases hskip : skipWhite text with
      | nil => simp [hskip] at hhead
      | cons c rest =>
        rw [hskip, List.head?_cons, Option.some.injEq] at hhead
        exact ⟨rest, by rw [hhead]⟩
    have hdigit : isDigitCode close = false := by rcases hclose with rfl | rfl <;> decide
    rw [readValue, hrest]
    rcases hclose with rfl | rfl <;>
      simp [quotationMark, readNumber, readWhole, List.span_eq_takeWhile_dropWhile, hdigit]

/-- An array is read as the array of what its elements are read as. -/
theorem reads_array {depth : ℕ} {white last : List ℕ} (hwhite : IsWhite white)
    (hlast : IsWhite last) (elements : List (List ℕ × Json)) (hne : elements ≠ [])
    (helements : ∀ entry ∈ elements, Reads depth entry.1 entry.2) (hdepth : depth ≠ 0) :
    Reads (depth + 1)
      (91 :: (white ++ List.intercalate (44 :: white) (elements.map Prod.fst) ++ last ++ [93]))
      (array (elements.map Prod.snd)) := by
  intro more rest _
  have hread := readBracket_intercalate (readValue (depth + more)) 93 (by decide)
    (fun text hhead ↦ readValue_eq_none (.inl rfl) hhead) white hlast rest hne
    fun entry hentry rest hrest ↦ (helements entry hentry).white hdepth hwhite more rest hrest
  have htext : 91 :: (white ++ List.intercalate (44 :: white) (elements.map Prod.fst) ++ last ++
      [93]) ++ rest = 91 :: (white ++ List.intercalate (44 :: white) (elements.map Prod.fst) ++
        last ++ 93 :: rest) := by simp
  rw [Nat.add_right_comm, readValue, htext, skipWhite_cons (by decide)]
  dsimp only
  rw [if_neg (by decide), if_pos rfl, hread, Option.map_some]

/-- A name and a value are read as a member. -/
theorem readsMember {depth : ℕ} {name key text : List ℕ} {value : Json}
    (hname : JsonString name key) (hvalue : Reads depth text value) :
    ReadsMember depth (name ++ 58 :: text) (key, value) := by
  intro more rest hrest
  have hread := readString_of_jsonString hname (58 :: text ++ rest)
  have hskip : skipWhite (name ++ (58 :: text ++ rest)) = name ++ (58 :: text ++ rest) := by
    obtain ⟨chars, rfl, -⟩ := hname
    exact skipWhite_cons (by decide) _
  rw [List.append_assoc, readMember, hskip, hread]
  dsimp only [Option.bind_eq_bind, Option.bind_some]
  rw [List.cons_append, skipWhite_cons (by decide)]
  dsimp only
  rw [if_pos rfl, hvalue more rest hrest]
  rfl

/-- White space before a member is left out. -/
theorem ReadsMember.white {depth : ℕ} {text : List ℕ} {member : List ℕ × Json}
    (hreads : ReadsMember depth text member) {white : List ℕ} (hwhite : IsWhite white) :
    ReadsMember depth (white ++ text) member := by
  intro more rest hrest
  rw [← hreads more rest hrest, readMember, readMember, List.append_assoc, skipWhite_append hwhite]

/-- A member does not start with the bracket that closes an object. -/
theorem readMember_eq_none (depth : ℕ) {text : List ℕ}
    (hhead : (skipWhite text).head? = some 125) : readMember (readValue depth) text = none := by
  have hnone : readString (skipWhite text) = none := by
    rw [readString, hhead]
    rfl
  rw [readMember, hnone]
  rfl

/-- An object is read as the object of what its members are read as. -/
theorem reads_object {depth : ℕ} {white last : List ℕ} (hwhite : IsWhite white)
    (hlast : IsWhite last) (members : List (List ℕ × List ℕ × Json)) (hne : members ≠ [])
    (hmembers : ∀ entry ∈ members, ReadsMember depth entry.1 entry.2) :
    Reads (depth + 1)
      (123 :: (white ++ List.intercalate (44 :: white) (members.map Prod.fst) ++ last ++ [125]))
      (object (members.map Prod.snd)) := by
  intro more rest _
  have hread := readBracket_intercalate _ 125 (by decide)
    (fun text hhead ↦ readMember_eq_none (depth + more) hhead) white hlast rest hne
    fun entry hentry rest hrest ↦ (hmembers entry hentry).white hwhite more rest hrest
  have htext : 123 :: (white ++ List.intercalate (44 :: white) (members.map Prod.fst) ++ last ++
      [125]) ++ rest = 123 :: (white ++ List.intercalate (44 :: white) (members.map Prod.fst) ++
        last ++ 125 :: rest) := by simp
  rw [Nat.add_right_comm, readValue, htext, skipWhite_cons (by decide)]
  dsimp only
  rw [if_neg (by decide), if_neg (by decide), if_pos rfl, hread, Option.map_some]

/-- A document is read as its value. -/
theorem readDocument_of_reads {depth : ℕ} {text last : List ℕ} {value : Json}
    (hreads : Reads depth text value) (hdepth : depth ≤ text.length) (hlast : IsWhite last) :
    readDocument (text ++ last) = some value := by
  have hdelimits : Delimits last := by
    cases last with
    | nil => simp [Delimits]
    | cons c last =>
      have hc := hlast c List.mem_cons_self
      simp only [isWhite, Bool.or_eq_true, beq_iff_eq] at hc
      refine delimits_cons ?_ (by omega) _
      simp [isDigitCode]
      omega
  have hskip : skipWhite last = [] := by
    have happend := skipWhite_append hlast []
    rwa [List.append_nil] at happend
  have hread := hreads (text.length + last.length - depth) last hdelimits
  rw [readDocument, List.length_append,
    show text.length + last.length = depth + (text.length + last.length - depth) by omega, hread]
  simp [hskip]

/-! ### Texts that are not read -/

/-- Where a text stands in a document, no value is read. -/
def Fails (depth : ℕ) (text : List ℕ) : Prop :=
  ∀ more rest, readValue (depth + more) (text ++ rest) = none

/-- Where a text stands in an object, no member is read. -/
def FailsMember (depth : ℕ) (text : List ℕ) : Prop :=
  ∀ more rest, readMember (readValue (depth + more)) (text ++ rest) = none

theorem Fails.mono {depth depth' : ℕ} {text : List ℕ} (hfails : Fails depth text)
    (hle : depth ≤ depth') : Fails depth' text := by
  obtain ⟨more, rfl⟩ := Nat.exists_eq_add_of_le hle
  intro more' rest
  rw [Nat.add_assoc]
  exact hfails (more + more') rest

theorem Fails.white {depth : ℕ} {text : List ℕ} (hfails : Fails depth text) {white : List ℕ}
    (hwhite : IsWhite white) : Fails depth (white ++ text) := by
  intro more rest
  rw [← hfails more rest, List.append_assoc]
  cases depth + more with
  | zero => rfl
  | succ depth => rw [readValue, readValue, skipWhite_append hwhite]

theorem FailsMember.white {depth : ℕ} {text : List ℕ} (hfails : FailsMember depth text)
    {white : List ℕ} (hwhite : IsWhite white) : FailsMember depth (white ++ text) := by
  intro more rest
  rw [← hfails more rest, readMember, readMember, List.append_assoc, skipWhite_append hwhite]

/-- A string is not read if the characters at its beginning do not come to a quotation mark. -/
theorem fails_string {chars : List ℕ}
    (hchars : ∀ count rest, readChars count (chars ++ rest) = none) :
    Fails 1 (quotationMark :: chars) := by
  intro more rest
  rw [Nat.add_comm, readValue, List.cons_append, skipWhite_cons (by decide)]
  dsimp only
  rw [if_pos rfl, readString, List.head?_cons, if_pos rfl, List.tail_cons, hchars, Option.map_none]

/-- A member whose value is not read is not read. -/
theorem failsMember {depth : ℕ} {name key text : List ℕ} (hname : JsonString name key)
    (hvalue : Fails depth text) : FailsMember depth (name ++ 58 :: text) := by
  intro more rest
  have hread := readString_of_jsonString hname (58 :: text ++ rest)
  have hskip : skipWhite (name ++ (58 :: text ++ rest)) = name ++ (58 :: text ++ rest) := by
    obtain ⟨chars, rfl, -⟩ := hname
    exact skipWhite_cons (by decide) _
  rw [List.append_assoc, readMember, hskip, hread]
  dsimp only [Option.bind_eq_bind, Option.bind_some]
  rw [List.cons_append, skipWhite_cons (by decide)]
  dsimp only
  rw [if_pos rfl, hvalue more rest]
  rfl

/-- Items are not read past the first one that is not. -/
theorem readItems_eq_none {Item : Type} {item : List ℕ → Option (Item × List ℕ)} {close : ℕ}
    {white : List ℕ} {good : List (List ℕ × Item)} {bad : List ℕ} (others : List (List ℕ))
    (hgood : ∀ entry ∈ good, ∀ rest, Delimits rest →
      item (white ++ entry.1 ++ rest) = some (entry.2, rest))
    (hbad : ∀ rest, item (white ++ bad ++ rest) = none) (rest : List ℕ) : ∀ count,
      readItems item close count (white ++
        List.intercalate (44 :: white) (good.map Prod.fst ++ bad :: others) ++ rest) = none := by
  induction good with
  | nil =>
    rintro (_ | count)
    · rfl
    have htext : ∃ after, white ++ List.intercalate (44 :: white)
        (([] : List (List ℕ × Item)).map Prod.fst ++ bad :: others) ++ rest =
          white ++ bad ++ after := by
      cases others with
      | nil => exact ⟨rest, by simp⟩
      | cons other others => exact ⟨_, by simp; rfl⟩
    obtain ⟨after, hafter⟩ := htext
    rw [hafter, readItems, hbad]
    rfl
  | cons entry good ih =>
    rintro (_ | count)
    · rfl
    obtain ⟨text, value⟩ := entry
    have hothers := ih (fun entry hentry ↦ hgood entry (List.mem_cons_of_mem _ hentry)) count
    have htext : white ++ List.intercalate (44 :: white)
        (((text, value) :: good).map Prod.fst ++ bad :: others) ++ rest =
          white ++ text ++ (44 :: (white ++
            List.intercalate (44 :: white) (good.map Prod.fst ++ bad :: others) ++ rest)) := by
      rw [List.map_cons, List.cons_append, List.intercalate_cons_of_ne_nil (by simp)]
      simp
    have hread := hgood (text, value) List.mem_cons_self (44 :: (white ++
        List.intercalate (44 :: white) (good.map Prod.fst ++ bad :: others) ++ rest))
      (delimits_cons (by decide) (by decide) _)
    rw [htext, readItems, hread]
    dsimp only [Option.bind_eq_bind, Option.bind_some]
    rw [skipWhite_cons (by decide)]
    dsimp only
    rw [if_pos rfl, hothers]
    rfl

/-- Items in brackets are not read past the first one that is not. Assumes: the first of all items
does not start with the bracket. -/
theorem readBracket_eq_none {Item : Type} (item : List ℕ → Option (Item × List ℕ)) (close : ℕ)
    (white : List ℕ) {good : List (List ℕ × Item)} {bad : List ℕ} (others : List (List ℕ))
    (hstart : ∀ text, (skipWhite text).head? = some close → item text = none)
    (hgood : ∀ entry ∈ good, ∀ rest, Delimits rest →
      item (white ++ entry.1 ++ rest) = some (entry.2, rest))
    (hbad : ∀ rest, item (white ++ bad ++ rest) = none)
    (hfirst : good = [] → ∀ rest, (skipWhite (white ++ bad ++ rest)).head? ≠ some close)
    (rest : List ℕ) : readBracket item close (white ++
      List.intercalate (44 :: white) (good.map Prod.fst ++ bad :: others) ++ rest) = none := by
  rw [readBracket, if_neg, readItems_eq_none others hgood hbad]
  cases good with
  | nil =>
    cases others with
    | nil => simpa using hfirst rfl rest
    | cons other others => simpa using hfirst rfl _
  | cons entry good =>
    intro hhead
    obtain ⟨text, value⟩ := entry
    have hread := hgood (text, value) List.mem_cons_self (44 :: (white ++
        List.intercalate (44 :: white) (good.map Prod.fst ++ bad :: others) ++ rest))
      (delimits_cons (by decide) (by decide) _)
    have htext : white ++ List.intercalate (44 :: white)
        (((text, value) :: good).map Prod.fst ++ bad :: others) ++ rest =
          white ++ text ++ (44 :: (white ++
            List.intercalate (44 :: white) (good.map Prod.fst ++ bad :: others) ++ rest)) := by
      rw [List.map_cons, List.cons_append, List.intercalate_cons_of_ne_nil (by simp)]
      simp
    rw [htext] at hhead
    rw [hstart _ hhead] at hread
    contradiction

/-- An array with an element that is not read is not read. -/
theorem fails_array {depth : ℕ} {white : List ℕ} (hwhite : IsWhite white)
    (good : List (List ℕ × Json)) {bad : List ℕ} (others : List (List ℕ)) (hne : good ≠ [])
    (hgood : ∀ entry ∈ good, Reads depth entry.1 entry.2) (hdepth : depth ≠ 0)
    (hbad : Fails depth bad) (rest : List ℕ) : Fails (depth + 1) (91 :: (white ++
      List.intercalate (44 :: white) (good.map Prod.fst ++ bad :: others) ++ rest)) := by
  intro more after
  have hnone := readBracket_eq_none (readValue (depth + more)) 93 white others
    (fun text hhead ↦ readValue_eq_none (.inl rfl) hhead)
    (fun entry hentry rest hrest ↦ (hgood entry hentry).white hdepth hwhite more rest hrest)
    (hbad.white hwhite more) (fun hnil ↦ absurd hnil hne) (rest ++ after)
  rw [Nat.add_right_comm, readValue, List.cons_append, List.append_assoc (_ ++ _),
    skipWhite_cons (by decide)]
  dsimp only
  rw [if_neg (by decide), if_pos rfl, hnone, Option.map_none]

/-- An object with a member that is not read is not read. Assumes: the member starts with a
quotation mark. -/
theorem fails_object {depth : ℕ} {white : List ℕ} (hwhite : IsWhite white)
    (good : List (List ℕ × List ℕ × Json)) {bad : List ℕ} (others : List (List ℕ))
    (hgood : ∀ entry ∈ good, ReadsMember depth entry.1 entry.2) (hbad : FailsMember depth bad)
    (hquote : bad.head? = some quotationMark) (rest : List ℕ) : Fails (depth + 1) (123 :: (white ++
      List.intercalate (44 :: white) (good.map Prod.fst ++ bad :: others) ++ rest)) := by
  intro more after
  have hnone := readBracket_eq_none _ 125 white others
    (fun text hhead ↦ readMember_eq_none (depth + more) hhead)
    (fun entry hentry rest hrest ↦ (hgood entry hentry).white hwhite more rest hrest)
    (hbad.white hwhite more) (fun _ rest ↦ by
      obtain ⟨first, tail, rfl⟩ := List.exists_cons_of_ne_nil (List.ne_nil_of_mem
        (List.mem_of_mem_head? hquote))
      obtain rfl : first = quotationMark := by simpa using hquote
      rw [List.append_assoc, skipWhite_append hwhite, List.cons_append,
        skipWhite_cons (by decide)]
      simp [quotationMark]) (rest ++ after)
  rw [Nat.add_right_comm, readValue, List.cons_append, List.append_assoc (_ ++ _),
    skipWhite_cons (by decide)]
  dsimp only
  rw [if_neg (by decide), if_neg (by decide), if_pos rfl, hnone, Option.map_none]

/-- A document whose value is not read is not read. -/
theorem readDocument_of_fails {depth : ℕ} {text : List ℕ} (hfails : Fails depth text)
    (hdepth : depth ≤ text.length) (rest : List ℕ) : readDocument (text ++ rest) = none := by
  have hnone := hfails (text.length + rest.length - depth) rest
  rw [show depth + (text.length + rest.length - depth) = (text ++ rest).length by
    rw [List.length_append]
    omega] at hnone
  rw [readDocument, hnone]
  rfl

end Json

end GameEngine.Library
