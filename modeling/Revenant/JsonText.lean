import Mathlib.Data.List.Forall2
import Revenant.UnicodeText

/-!
# Reading JSON

JSON's values and a reader for them that works on bytes: insignificant space,
the three literal names, numbers with sign, fraction and exponent, strings with every
escape, and lists and objects of these.  A string's bytes stand for themselves where
the grammar lets them, so what a string holds is any bytes at all.

What writes a value is said piece by piece: a text reads as a value when the reader
takes exactly that text and gives that value, whatever delimiter follows it.
-/

namespace JsonText

abbrev Bytes := List UInt8

inductive Json where
  | null
  | bool (truth : Bool)
  /-- A mantissa, and the power of ten it is multiplied by. -/
  | number (mantissa exponent : Int)
  | text (bytes : Bytes)
  | list (items : List Json)
  | object (members : List (Bytes × Json))

section Strings

def hexDigit (digit : UInt8) : Option Nat :=
  if 0x30 ≤ digit ∧ digit ≤ 0x39 then some (digit.toNat - 0x30)
  else if 0x41 ≤ digit ∧ digit ≤ 0x46 then some (digit.toNat - 0x37)
  else if 0x61 ≤ digit ∧ digit ≤ 0x66 then some (digit.toNat - 0x57)
  else none

/-- Four hexadecimal digits. -/
def hexUnit : Bytes → Option (Nat × Bytes)
  | first :: second :: third :: fourth :: rest => do
      let a ← hexDigit first
      let b ← hexDigit second
      let c ← hexDigit third
      let d ← hexDigit fourth
      return (((a * 16 + b) * 16 + c) * 16 + d, rest)
  | _ => none

def codePoint (value : Nat) : Bytes := String.utf8EncodeChar (Char.ofNat value)

/-- What follows `\u`.  Half of a surrogate pair stands for nothing on its own. -/
def unicodeEscape (bytes : Bytes) : Option (Bytes × Bytes) := do
  let (unit, rest) ← hexUnit bytes
  if 0xDC00 ≤ unit ∧ unit ≤ 0xDFFF then none
  else if 0xD800 ≤ unit ∧ unit ≤ 0xDBFF then
    match rest with
    | 0x5C :: 0x75 :: more => do
        let (low, later) ← hexUnit more
        if 0xDC00 ≤ low ∧ low ≤ 0xDFFF then
          return (codePoint (0x10000 + (unit - 0xD800) * 0x400 + (low - 0xDC00)), later)
        else none
    | _ => none
  else return (codePoint unit, rest)

/-- The escapes that are one letter long. -/
def shortEscape (mark : UInt8) : Option UInt8 :=
  if mark = 0x22 ∨ mark = 0x5C ∨ mark = 0x2F then some mark
  else if mark = 0x62 then some 0x08
  else if mark = 0x66 then some 0x0C
  else if mark = 0x6E then some 0x0A
  else if mark = 0x72 then some 0x0D
  else if mark = 0x74 then some 0x09
  else none

/-- One character of a string, and what follows it. -/
def readCharacter : Bytes → Option (Bytes × Bytes)
  | [] => none
  | first :: rest =>
      if first = 0x5C then
        match rest with
        | [] => none
        | mark :: later =>
            if mark = 0x75 then unicodeEscape later
            else (shortEscape mark).map fun byte => ([byte], later)
      else if first < 0x20 then none
      else some ([first], rest)

/-- The rest of a string, its closing quote included.  A character is at least a byte,
so as many rounds as bytes are enough. -/
def readString : (rounds : Nat) → Bytes → Option (Bytes × Bytes)
  | 0, _ => none
  | _, [] => none
  | rounds + 1, first :: rest =>
      if first = 0x22 then some ([], rest)
      else do
        let (character, later) ← readCharacter (first :: rest)
        let (text, after) ← readString rounds later
        return (character ++ text, after)

end Strings

section Numbers

def isDigit (byte : UInt8) : Bool := 0x30 ≤ byte && byte ≤ 0x39

def digitsValue (digits : Bytes) : Nat :=
  digits.foldl (fun value digit => 10 * value + (digit.toNat - 0x30)) 0

/-- The digits that bytes begin with. -/
def readDigits (bytes : Bytes) : Option (Bytes × Bytes) :=
  let digits := bytes.takeWhile isDigit
  if digits.isEmpty then none else some (digits, bytes.dropWhile isDigit)

/-- A whole number has no zero before it. -/
def readWhole (bytes : Bytes) : Option (Bytes × Bytes) := do
  let (digits, rest) ← readDigits bytes
  if digits.head? = some 0x30 ∧ digits.length ≠ 1 then none else return (digits, rest)

def readFraction : Bytes → Option (Bytes × Bytes)
  | 0x2E :: rest => readDigits rest
  | bytes => some ([], bytes)

def readExponent : Bytes → Option (Int × Bytes)
  | mark :: rest =>
      if mark = 0x65 ∨ mark = 0x45 then
        match rest with
        | 0x2D :: later => (readDigits later).map fun (digits, after) => (-digitsValue digits, after)
        | 0x2B :: later => (readDigits later).map fun (digits, after) => (digitsValue digits, after)
        | later => (readDigits later).map fun (digits, after) => (digitsValue digits, after)
      else some (0, mark :: rest)
  | [] => some (0, [])

def readMagnitude (bytes : Bytes) : Option (Nat × Int × Bytes) := do
  let (whole, afterWhole) ← readWhole bytes
  let (fraction, afterFraction) ← readFraction afterWhole
  let (power, rest) ← readExponent afterFraction
  return (digitsValue (whole ++ fraction), power - fraction.length, rest)

def readNumber : Bytes → Option (Json × Bytes)
  | 0x2D :: later =>
      (readMagnitude later).map fun (magnitude, power, rest) => (.number (-magnitude) power, rest)
  | bytes => (readMagnitude bytes).map fun (magnitude, power, rest) => (.number magnitude power, rest)

end Numbers

section Values

def isSpace (byte : UInt8) : Bool := byte == 0x20 || byte == 0x09 || byte == 0x0A || byte == 0x0D

def skipSpace (bytes : Bytes) : Bytes := bytes.dropWhile isSpace

def literal (name : String) : Bytes := name.toList.map fun letter => UInt8.ofNat letter.toNat

/-- A literal name at the front, and what follows it. -/
def readLiteral (name : String) (value : Json) (bytes : Bytes) : Option (Json × Bytes) :=
  if (literal name).isPrefixOf bytes then some (value, bytes.drop (literal name).length) else none

mutual

def readValue : (rounds : Nat) → Bytes → Option (Json × Bytes)
  | 0, _ => none
  | rounds + 1, bytes =>
      match skipSpace bytes with
      | [] => none
      | first :: rest =>
          if first = 0x22 then (readString rest.length rest).map fun (text, after) => (.text text, after)
          else if first = 0x5B then
            match skipSpace rest with
            | 0x5D :: after => some (.list [], after)
            | inside => (readItems rounds inside).map fun (items, after) => (.list items, after)
          else if first = 0x7B then
            match skipSpace rest with
            | 0x7D :: after => some (.object [], after)
            | inside => (readMembers rounds inside).map fun (members, after) => (.object members, after)
          else if first = 0x74 then readLiteral "true" (.bool true) (first :: rest)
          else if first = 0x66 then readLiteral "false" (.bool false) (first :: rest)
          else if first = 0x6E then readLiteral "null" .null (first :: rest)
          else readNumber (first :: rest)

/-- The items of a list up to its closing bracket. -/
def readItems : (rounds : Nat) → Bytes → Option (List Json × Bytes)
  | 0, _ => none
  | rounds + 1, bytes => do
      let (item, after) ← readValue rounds bytes
      match skipSpace after with
      | 0x2C :: more => do
          let (items, later) ← readItems rounds more
          return (item :: items, later)
      | 0x5D :: later => return ([item], later)
      | _ => none

/-- The members of an object up to its closing brace. -/
def readMembers : (rounds : Nat) → Bytes → Option (List (Bytes × Json) × Bytes)
  | 0, _ => none
  | rounds + 1, bytes =>
      match skipSpace bytes with
      | 0x22 :: rest => do
          let (name, afterName) ← readString rest.length rest
          match skipSpace afterName with
          | 0x3A :: held => do
              let (value, after) ← readValue rounds held
              match skipSpace after with
              | 0x2C :: more => do
                  let (members, later) ← readMembers rounds more
                  return ((name, value) :: members, later)
              | 0x7D :: later => return ([(name, value)], later)
              | _ => none
          | _ => none
      | _ => none

end

/-- The value a whole text is, with nothing but space around it. -/
def read (bytes : Bytes) : Option Json := do
  let (value, rest) ← readValue (bytes.length + 1) bytes
  if skipSpace rest = [] then return value else none

end Values

section Spelling

/-- Bytes that a string is read from, up to its closing quote. -/
def Spells (bytes content : Bytes) : Prop :=
  ∀ rounds rest, bytes.length < rounds →
    readString rounds (bytes ++ 0x22 :: rest) = some (content, rest)

theorem Spells.nil : Spells [] [] := by
  intro rounds rest enough
  obtain ⟨fewer, rfl⟩ := Nat.exists_eq_succ_of_ne_zero (Nat.ne_of_gt enough)
  rfl

/-- A string goes on with one more character. -/
theorem Spells.cons {first : UInt8} {piece character bytes content : Bytes} (unquoted : first ≠ 0x22)
    (reads : ∀ later, readCharacter (first :: piece ++ later) = some (character, later))
    (spells : Spells bytes content) : Spells (first :: piece ++ bytes) (character ++ content) := by
  intro rounds rest enough
  obtain ⟨fewer, rfl⟩ := Nat.exists_eq_succ_of_ne_zero (Nat.ne_of_gt (Nat.zero_lt_of_lt enough))
  have own := reads (bytes ++ 0x22 :: rest)
  rw [List.length_append, List.length_cons] at enough
  have later := spells fewer rest (by omega)
  rw [List.cons_append] at own
  rw [List.append_assoc, List.cons_append, readString, if_neg unquoted, own]
  simp [later]

theorem readCharacter_plain {byte : UInt8} (plain : byte ≠ 0x5C) (printable : ¬byte < 0x20)
    (later : Bytes) : readCharacter (byte :: later) = some ([byte], later) := by
  simp only [readCharacter, if_neg plain, if_neg printable]

theorem readCharacter_escaped {mark byte : UInt8} (short : shortEscape mark = some byte)
    (later : Bytes) : readCharacter (0x5C :: mark :: later) = some ([byte], later) := by
  have letter : mark ≠ 0x75 := by
    rintro rfl
    simp [shortEscape] at short
  simp only [readCharacter, if_true, if_neg letter, short, Option.map_some]

/-- A control character written out in four digits. -/
theorem readCharacter_control {first second third fourth : UInt8} {a b c d : Nat}
    (digits : hexDigit first = some a ∧ hexDigit second = some b ∧ hexDigit third = some c ∧
      hexDigit fourth = some d)
    (small : ((a * 16 + b) * 16 + c) * 16 + d < 0x80) (later : Bytes) :
    readCharacter (0x5C :: 0x75 :: first :: second :: third :: fourth :: later) =
      some ([UInt8.ofNat (((a * 16 + b) * 16 + c) * 16 + d)], later) := by
  obtain ⟨one, two, three, four⟩ := digits
  have unit : hexUnit (first :: second :: third :: fourth :: later) =
      some (((a * 16 + b) * 16 + c) * 16 + d, later) := by
    simp [hexUnit, one, two, three, four]
  generalize value : ((a * 16 + b) * 16 + c) * 16 + d = point at small unit ⊢
  have scalar : (Char.ofNat point).toNat = point :=
    UnicodeText.toNat_ofNat (Or.inl (by omega))
  simp only [readCharacter, if_true, unicodeEscape, unit, Option.bind_eq_bind, Option.bind_some]
  rw [if_neg (by omega), if_neg (by omega), codePoint,
    UnicodeText.utf8EncodeChar_ascii (by omega), scalar]
  rfl

end Spelling

section Writing

/-- What may follow a value inside a document, or nothing. -/
def Ends (rest : Bytes) : Prop :=
  ∀ first ∈ rest.head?, first = 0x2C ∨ first = 0x5D ∨ first = 0x7D

/-- A text that reads as a value. -/
structure Reads (bytes : Bytes) (value : Json) : Prop where
  starts : ∃ first more, bytes = first :: more ∧ isSpace first = false ∧ first ≠ 0x5D
  reads : ∀ rounds rest, bytes.length ≤ rounds → Ends rest →
    readValue rounds (bytes ++ rest) = some (value, rest)

theorem skipSpace_cons {first : UInt8} (solid : isSpace first = false) (rest : Bytes) :
    skipSpace (first :: rest) = first :: rest := by
  rw [skipSpace, List.dropWhile_cons_of_neg (by simp [solid])]

theorem Reads.text {bytes content : Bytes} (spells : Spells bytes content) :
    Reads (0x22 :: bytes ++ [0x22]) (.text content) where
  starts := ⟨0x22, bytes ++ [0x22], rfl, by decide, by decide⟩
  reads := by
    intro rounds rest enough _
    obtain ⟨fewer, rfl⟩ := Nat.exists_eq_succ_of_ne_zero (Nat.ne_of_gt (Nat.lt_of_lt_of_le
      (by simp) enough))
    have inside := spells (bytes ++ 0x22 :: rest).length rest (by simp)
    have whole : 0x22 :: bytes ++ [0x22] ++ rest = 0x22 :: (bytes ++ 0x22 :: rest) := by simp
    rw [whole, readValue, skipSpace_cons (by decide)]
    simp only [if_true, inside, Option.map_some]

theorem Reads.bool (truth : Bool) : Reads (literal (if truth then "true" else "false")) (.bool truth) where
  starts := by cases truth <;> exact ⟨_, _, rfl, by decide, by decide⟩
  reads := by
    intro rounds rest enough _
    obtain ⟨fewer, rfl⟩ := Nat.exists_eq_succ_of_ne_zero (Nat.ne_of_gt (Nat.lt_of_lt_of_le
      (by cases truth <;> decide) enough))
    cases truth with
    | true => rfl
    | false => rfl

theorem readDigits_append {digits rest : Bytes} (nonempty : digits ≠ [])
    (all : ∀ digit ∈ digits, isDigit digit = true)
    (stops : ∀ first ∈ rest.head?, isDigit first = false) :
    readDigits (digits ++ rest) = some (digits, rest) := by
  have none_more : rest.takeWhile isDigit = [] ∧ rest.dropWhile isDigit = rest := by
    cases rest with
    | nil => exact ⟨rfl, rfl⟩
    | cons first rest =>
        have stop := stops first rfl
        exact ⟨by simp [stop], by simp [stop]⟩
  rw [readDigits, List.takeWhile_append_of_pos all, List.dropWhile_append_of_pos all, none_more.1,
    none_more.2, List.append_nil]
  simp [nonempty]

/-- A number after which a delimiter comes has no fraction and no exponent. -/
theorem readMagnitude_append {digits rest : Bytes} (nonempty : digits ≠ [])
    (all : ∀ digit ∈ digits, isDigit digit = true)
    (leading : digits.head? = some 0x30 → digits.length = 1) (ends : Ends rest) :
    readMagnitude (digits ++ rest) = some (digitsValue digits, 0, rest) := by
  have stops : ∀ first ∈ rest.head?, isDigit first = false := by
    intro first member
    rcases ends first member with rfl | rfl | rfl <;> rfl
  have whole : readWhole (digits ++ rest) = some (digits, rest) := by
    rw [readWhole, readDigits_append nonempty all stops]
    simp only [Option.bind_eq_bind, Option.bind_some]
    rw [if_neg (by rintro ⟨zero, longer⟩; exact longer (leading zero))]
    rfl
  have fraction : readFraction rest = some ([], rest) := by
    cases rest with
    | nil => rfl
    | cons first rest => rcases ends first rfl with rfl | rfl | rfl <;> rfl
  have exponent : readExponent rest = some (0, rest) := by
    cases rest with
    | nil => rfl
    | cons first rest => rcases ends first rfl with rfl | rfl | rfl <;> rfl
  simp [readMagnitude, whole, fraction, exponent]

theorem Reads.number {digits : Bytes} (nonempty : digits ≠ [])
    (all : ∀ digit ∈ digits, isDigit digit = true)
    (leading : digits.head? = some 0x30 → digits.length = 1) :
    Reads digits (.number (digitsValue digits) 0) := by
  obtain ⟨first, more, rfl⟩ := List.exists_cons_of_ne_nil nonempty
  have digit := all first List.mem_cons_self
  simp only [isDigit, Bool.and_eq_true, decide_eq_true_eq, UInt8.le_iff_toNat_le,
    UInt8.reduceToNat] at digit
  have ne {other : UInt8} (differs : other.toNat < 0x30 ∨ 0x39 < other.toNat) : first ≠ other := by
    rintro rfl
    omega
  have solid : isSpace first = false := by
    simp only [isSpace, Bool.or_eq_false_iff, beq_eq_false_iff_ne]
    exact ⟨⟨⟨ne (by decide), ne (by decide)⟩, ne (by decide)⟩, ne (by decide)⟩
  refine ⟨⟨first, more, rfl, solid, ne (by decide)⟩, ?_⟩
  intro rounds rest enough ends
  obtain ⟨fewer, rfl⟩ := Nat.exists_eq_succ_of_ne_zero (Nat.ne_of_gt (Nat.lt_of_lt_of_le
    (by simp) enough))
  have magnitude := readMagnitude_append nonempty all leading ends
  rw [List.cons_append] at magnitude
  have negative : readNumber (first :: (more ++ rest)) =
      (readMagnitude (first :: (more ++ rest))).map
        fun (magnitude, power, rest) => (.number magnitude power, rest) := by
    rw [readNumber]
    rintro later equal
    exact ne (by decide) (List.cons.inj equal).1
  rw [List.cons_append, readValue, skipSpace_cons solid]
  simp only [if_neg (@ne 0x22 (by decide)), if_neg (@ne 0x5B (by decide)),
    if_neg (@ne 0x7B (by decide)), if_neg (@ne 0x74 (by decide)),
    if_neg (@ne 0x66 (by decide)), if_neg (@ne 0x6E (by decide)), negative,
    magnitude, Option.map_some]

/-- Texts one after another with commas between. -/
def separated : List Bytes → Bytes
  | [] => []
  | [text] => text
  | text :: next :: more => text ++ 0x2C :: separated (next :: more)

theorem readItems_separated {texts : List Bytes} {values : List Json}
    (reads : List.Forall₂ Reads texts values) (nonempty : texts ≠ []) (rounds : Nat) (rest : Bytes)
    (enough : (separated texts).length < rounds) :
    readItems rounds (separated texts ++ 0x5D :: rest) = some (values, rest) := by
  induction reads generalizing rounds with
  | nil => exact absurd rfl nonempty
  | @cons text value texts values own later ih =>
      obtain ⟨fewer, rfl⟩ := Nat.exists_eq_succ_of_ne_zero (Nat.ne_of_gt (Nat.zero_lt_of_lt enough))
      cases texts with
      | nil =>
          cases later
          have item := own.reads fewer (0x5D :: rest) (Nat.le_of_lt_succ enough)
            (by intro first member; simp at member; simp [← member])
          rw [separated, readItems, item]
          rfl
      | cons next more =>
          rw [separated, List.length_append, List.length_cons] at enough
          have item := own.reads fewer (0x2C :: (separated (next :: more) ++ 0x5D :: rest)) (by omega)
            (by intro first member; simp at member; simp [← member])
          have items := ih (by simp) fewer (by omega)
          rw [separated, List.append_assoc, List.cons_append, readItems, item]
          simp only [Option.bind_eq_bind, Option.bind_some]
          rw [skipSpace_cons (by decide)]
          simp [items]

theorem readValue_list {first : UInt8} (solid : isSpace first = false) (unclosed : first ≠ 0x5D)
    (rounds : Nat) (rest : Bytes) :
    readValue (rounds + 1) (0x5B :: first :: rest) =
      (readItems rounds (first :: rest)).map fun (items, after) => (.list items, after) := by
  have opened : readValue (rounds + 1) (0x5B :: first :: rest) =
      match skipSpace (first :: rest) with
      | 0x5D :: after => some (.list [], after)
      | inside => (readItems rounds inside).map fun (items, after) => (.list items, after) := rfl
  rw [opened, skipSpace_cons solid]
  split
  case h_1 after equal => exact absurd (List.cons.inj equal).1 unclosed
  case h_2 => rfl

/-- A list of values does not begin with its closing bracket. -/
theorem separated_starts {text : Bytes} {value : Json} (own : Reads text value) (texts : List Bytes) :
    ∃ first tail, separated (text :: texts) = first :: tail ∧ isSpace first = false ∧
      first ≠ 0x5D := by
  obtain ⟨first, more, rfl, solid, unclosed⟩ := own.starts
  cases texts with
  | nil => exact ⟨first, more, rfl, solid, unclosed⟩
  | cons next texts => exact ⟨first, _, rfl, solid, unclosed⟩

theorem Reads.list {texts : List Bytes} {values : List Json}
    (reads : List.Forall₂ Reads texts values) :
    Reads (0x5B :: separated texts ++ [0x5D]) (.list values) where
  starts := ⟨0x5B, separated texts ++ [0x5D], rfl, by decide, by decide⟩
  reads := by
    intro rounds rest enough _
    obtain ⟨fewer, rfl⟩ := Nat.exists_eq_succ_of_ne_zero (Nat.ne_of_gt (Nat.lt_of_lt_of_le
      (by simp) enough))
    have whole : 0x5B :: separated texts ++ [0x5D] ++ rest =
        0x5B :: (separated texts ++ 0x5D :: rest) := by simp
    rw [whole]
    cases reads with
    | nil => rfl
    | @cons text value texts values own later =>
        have inside := readItems_separated (.cons own later) (by simp) fewer rest
          (by simp at enough; omega)
        obtain ⟨first, tail, led, solid, unclosed⟩ := separated_starts own texts
        rw [led, List.cons_append] at inside ⊢
        rw [readValue_list solid unclosed, inside]
        rfl

/-- A text that reads as a member of an object. -/
def ReadsMember (bytes : Bytes) (member : Bytes × Json) : Prop :=
  ∃ spelled held, bytes = 0x22 :: (spelled ++ 0x22 :: 0x3A :: held) ∧ Spells spelled member.1 ∧
    Reads held member.2

theorem readMembers_cons {spelled name : Bytes} (spells : Spells spelled name) (rounds : Nat)
    (rest : Bytes) :
    readMembers (rounds + 1) (0x22 :: (spelled ++ 0x22 :: 0x3A :: rest)) = (do
      let (value, after) ← readValue rounds rest
      match skipSpace after with
      | 0x2C :: more => do
          let (members, later) ← readMembers rounds more
          return ((name, value) :: members, later)
      | 0x7D :: later => return ([(name, value)], later)
      | _ => none) := by
  have inside := spells (spelled ++ 0x22 :: 0x3A :: rest).length (0x3A :: rest) (by simp)
  rw [readMembers, skipSpace_cons (by decide)]
  simp only [inside, Option.bind_eq_bind, Option.bind_some]
  rw [skipSpace_cons (by decide)]
  rfl

theorem readMembers_separated {texts : List Bytes} {members : List (Bytes × Json)}
    (reads : List.Forall₂ ReadsMember texts members) (nonempty : texts ≠ []) (rounds : Nat)
    (rest : Bytes) (enough : (separated texts).length < rounds) :
    readMembers rounds (separated texts ++ 0x7D :: rest) = some (members, rest) := by
  induction reads generalizing rounds with
  | nil => exact absurd rfl nonempty
  | @cons text member texts members own later ih =>
      obtain ⟨fewer, rfl⟩ := Nat.exists_eq_succ_of_ne_zero (Nat.ne_of_gt (Nat.zero_lt_of_lt enough))
      obtain ⟨spelled, held, rfl, spells, reads⟩ := own
      cases texts with
      | nil =>
          cases later
          simp only [separated, List.length_append, List.length_cons] at enough
          have value := reads.reads fewer (0x7D :: rest) (by omega)
            (by intro first member; simp at member; simp [← member])
          have whole : separated [0x22 :: (spelled ++ 0x22 :: 0x3A :: held)] ++ 0x7D :: rest =
              0x22 :: (spelled ++ 0x22 :: 0x3A :: (held ++ 0x7D :: rest)) := by simp [separated]
          rw [whole, readMembers_cons spells, value]
          rfl
      | cons next more =>
          simp only [separated, List.length_append, List.length_cons] at enough
          have value := reads.reads fewer (0x2C :: (separated (next :: more) ++ 0x7D :: rest))
            (by omega) (by intro first member; simp at member; simp [← member])
          have members := ih (by simp) fewer (by omega)
          have whole : separated ((0x22 :: (spelled ++ 0x22 :: 0x3A :: held)) :: next :: more) ++
              0x7D :: rest = 0x22 :: (spelled ++ 0x22 :: 0x3A ::
                (held ++ 0x2C :: (separated (next :: more) ++ 0x7D :: rest))) := by
            simp [separated]
          rw [whole, readMembers_cons spells, value]
          simp only [Option.bind_eq_bind, Option.bind_some]
          rw [skipSpace_cons (by decide)]
          simp [members]

theorem Reads.object {texts : List Bytes} {members : List (Bytes × Json)}
    (reads : List.Forall₂ ReadsMember texts members) :
    Reads (0x7B :: separated texts ++ [0x7D]) (.object members) where
  starts := ⟨0x7B, separated texts ++ [0x7D], rfl, by decide, by decide⟩
  reads := by
    intro rounds rest enough _
    obtain ⟨fewer, rfl⟩ := Nat.exists_eq_succ_of_ne_zero (Nat.ne_of_gt (Nat.lt_of_lt_of_le
      (by simp) enough))
    have whole : 0x7B :: separated texts ++ [0x7D] ++ rest =
        0x7B :: (separated texts ++ 0x7D :: rest) := by simp
    rw [whole]
    cases reads with
    | nil => rfl
    | @cons text member texts members own later =>
        have inside := readMembers_separated (.cons own later) (by simp) fewer rest
          (by simp at enough; omega)
        obtain ⟨tail, led⟩ : ∃ tail, separated (text :: texts) = 0x22 :: tail := by
          obtain ⟨spelled, held, rfl, -⟩ := own
          cases texts with
          | nil => exact ⟨_, rfl⟩
          | cons next texts => exact ⟨_, rfl⟩
        rw [led, List.cons_append] at inside ⊢
        have opened : readValue (fewer + 1) (0x7B :: 0x22 :: (tail ++ 0x7D :: rest)) =
            (readMembers fewer (0x22 :: (tail ++ 0x7D :: rest))).map
              fun (members, after) => (.object members, after) := rfl
        rw [opened, inside]
        rfl

/-- A text that reads as a value is a document of that value. -/
theorem Reads.read {bytes : Bytes} {value : Json} (reads : Reads bytes value) :
    read bytes = some value := by
  have whole := reads.reads (bytes.length + 1) [] (by omega) (by simp [Ends])
  rw [List.append_nil] at whole
  simp [JsonText.read, whole, skipSpace]

end Writing

end JsonText
