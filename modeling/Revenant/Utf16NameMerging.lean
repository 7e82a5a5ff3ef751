import Mathlib.Data.List.Basic
import Revenant.Utf16NameDecoding

/-!
# Which names of code units can be told apart

The sigil of an escape is not itself escaped, so an escape in a decoded name may have
been written there as text.  A name that is decoded whole is told apart by its flag;
any other is told apart just when its text holds a single escape to be taken either way.
-/

namespace Revenant
namespace NameDecode

open UnicodeText

section Spellings

/-- The units that are ever spelled out: NUL and the surrogates. -/
def undecodables : List Nat := 0 :: List.range' 0xD800 0x800

theorem mem_undecodables {unit : Nat} :
    unit ∈ undecodables ↔ unit = 0 ∨ 0xD800 ≤ unit ∧ unit ≤ 0xDFFF := by
  simp only [undecodables, List.mem_cons, List.mem_range'_1]
  omega

/-- The escape of a unit, as the text it is in a name. -/
def escapeText (unit : Nat) : List Char := asciiText (escapedCodeUnit unit)

/-- Whether units begin by spelling out the escape of a unit that cannot be decoded. -/
def spellsEscape (units : List Nat) : Bool :=
  undecodables.any fun unit => ((escapeText unit).map Char.toNat).isPrefixOf units

/-- How often units spell out such an escape. -/
def spelledIn : List Nat → Nat
  | [] => 0
  | unit :: rest => (if spellsEscape (unit :: rest) then 1 else 0) + spelledIn rest

/-- Whether a text begins with an escape. -/
def escapeHere (text : List Char) : Bool :=
  undecodables.any fun unit => (escapeText unit).isPrefixOf text

/-- How many escapes a text holds. -/
def escapesIn : List Char → Nat
  | [] => 0
  | letter :: text => (if escapeHere (letter :: text) then 1 else 0) + escapesIn text

/-- What follows the sigil of an escape. -/
def escapeTail (unit : Nat) : List Char := asciiText (escapedCodeUnit unit).tail

theorem escapeText_eq (unit : Nat) : escapeText unit = '%' :: escapeTail unit := rfl

theorem escapeTail_bounds {unit : Nat} {letter : Char} (member : letter ∈ escapeTail unit) :
    0x30 ≤ letter.toNat ∧ letter.toNat ≤ 0x75 := by
  obtain ⟨byte, found, rfl⟩ := List.mem_map.mp member
  have bounds := escapedCodeUnit_bounds (List.mem_of_mem_tail found)
  rw [toNat_ofNat (Or.inl (by omega))]
  refine ⟨?_, bounds.2⟩
  simp only [escapedCodeUnit, List.tail_cons, List.mem_cons, List.not_mem_nil, or_false] at found
  have first := Decoding.hexDigit_bounds (unit >>> 12)
  have second := Decoding.hexDigit_bounds (unit >>> 8)
  have third := Decoding.hexDigit_bounds (unit >>> 4)
  have fourth := Decoding.hexDigit_bounds unit
  rcases found with rfl | rfl | rfl | rfl | rfl
  · decide
  all_goals omega

/-- An escape tells its unit. -/
theorem escapeText_injective {first second : Nat} (small : first < 0x10000)
    (smallSecond : second < 0x10000) (equal : escapeText first = escapeText second) :
    first = second := by
  have bytes : escapedCodeUnit first = escapedCodeUnit second := by
    rw [← utf8_escapedCodeUnit first, ← utf8_escapedCodeUnit second]
    exact congrArg utf8 equal
  simp only [escapedCodeUnit, List.cons.injEq, true_and, and_true] at bytes
  obtain ⟨first12, first8, first4, first0⟩ := bytes
  have digit {one other : Nat} (same : hexDigit one = hexDigit other) : one % 16 = other % 16 := by
    have values := congrArg hexValue same
    rw [hexValue_hexDigit, hexValue_hexDigit] at values
    exact Option.some.inj values
  have nibble12 := digit first12
  have nibble8 := digit first8
  have nibble4 := digit first4
  have nibble0 := digit first0
  simp only [Nat.shiftRight_eq_div_pow] at nibble12 nibble8 nibble4
  omega

theorem escapeHere_cons_ne {letter : Char} (plain : letter ≠ '%') (text : List Char) :
    escapeHere (letter :: text) = false := by
  rw [escapeHere, List.any_eq_false]
  intro unit _
  rw [escapeText_eq, List.isPrefixOf_cons_cons]
  simp [Ne.symm plain]

theorem escapesIn_append {word : List Char} (plain : ∀ letter ∈ word, letter ≠ '%')
    (text : List Char) : escapesIn (word ++ text) = escapesIn text := by
  induction word with
  | nil => rfl
  | cons letter word ih =>
      rw [List.cons_append, escapesIn, escapeHere_cons_ne (plain letter List.mem_cons_self),
        ih fun other member => plain other (List.mem_cons_of_mem _ member)]
      simp

theorem escapesIn_escapeText {unit : Nat} (known : unit ∈ undecodables) (text : List Char) :
    escapesIn (escapeText unit ++ text) = 1 + escapesIn text := by
  have here : escapeHere (escapeText unit ++ text) = true := by
    rw [escapeHere, List.any_eq_true]
    exact ⟨unit, known, by rw [List.isPrefixOf_iff_prefix]; exact List.prefix_append _ _⟩
  have plain : ∀ letter ∈ escapeTail unit, letter ≠ '%' := by
    rintro letter member rfl
    exact absurd (escapeTail_bounds member).1 (by decide)
  rw [escapeText_eq, List.cons_append] at here ⊢
  rw [escapesIn, if_pos here, escapesIn_append plain]

theorem Undecodable.known {unit : Nat} {rest : List Nat} (undecodable : Undecodable unit rest) :
    unit ∈ undecodables := by
  rw [mem_undecodables]
  rcases undecodable with direct | ⟨leads, -⟩
  · rw [isDirectlyEscapable_iff] at direct
    omega
  · rw [isHighSurrogate_iff] at leads
    omega

/-- Below the sigil and the escapes, text and units have the same beginnings. -/
theorem prefix_textOf_iff {units : List Nat} {pieces : List Piece} (reading : Reading units pieces)
    {word : List Char} (plain : ∀ letter ∈ word, 0x30 ≤ letter.toNat ∧ letter.toNat ≤ 0x75) :
    word <+: textOf pieces ↔ word.map Char.toNat <+: units := by
  induction word generalizing units pieces with
  | nil => simp
  | cons first word ih =>
      obtain ⟨low, high⟩ := plain first List.mem_cons_self
      have later : ∀ letter ∈ word, 0x30 ≤ letter.toNat ∧ letter.toNat ≤ 0x75 :=
        fun letter member => plain letter (List.mem_cons_of_mem _ member)
      rw [List.map_cons]
      cases reading with
      | nil => simp [textOf]
      | @letter letter rest pieces nonzero after =>
          have text : textOf (.letter letter :: pieces) = letter :: textOf pieces := rfl
          rw [text, List.cons_prefix_cons, ih after later]
          rcases unitsOf_cases letter with ⟨own, -⟩ | ⟨upper, lower, own, leads, -, large⟩
          · rw [own, List.singleton_append, List.cons_prefix_cons, Char.toNat_inj]
          · rw [isHighSurrogate_iff] at leads
            rw [own, List.cons_append, List.cons_prefix_cons]
            refine iff_of_false ?_ ?_
            · rintro ⟨rfl, -⟩
              omega
            · rintro ⟨same, -⟩
              omega
      | @undecoded unit rest pieces undecodable after =>
          have known := undecodable.known
          rw [mem_undecodables] at known
          have text : textOf (.undecoded unit :: pieces) =
              '%' :: (escapeTail unit ++ textOf pieces) := rfl
          rw [text, List.cons_prefix_cons, List.cons_prefix_cons]
          refine iff_of_false ?_ ?_
          · rintro ⟨rfl, -⟩
            exact absurd low (by decide)
          · rintro ⟨same, -⟩
            omega

theorem escapeHere_letter {rest : List Nat} {pieces : List Piece} (letter : Char)
    (after : Reading rest pieces) :
    escapeHere (letter :: textOf pieces) = spellsEscape (unitsOf letter ++ rest) := by
  rw [escapeHere, spellsEscape]
  congr 1
  funext unit
  rw [Bool.eq_iff_iff, List.isPrefixOf_iff_prefix, List.isPrefixOf_iff_prefix, escapeText_eq,
    List.map_cons, List.cons_prefix_cons, prefix_textOf_iff after fun _ => escapeTail_bounds]
  rcases unitsOf_cases letter with ⟨own, -⟩ | ⟨upper, lower, own, leads, -, large⟩
  · rw [own, List.singleton_append, List.cons_prefix_cons, Char.toNat_inj]
  · rw [isHighSurrogate_iff] at leads
    rw [own, List.cons_append, List.cons_prefix_cons]
    refine iff_of_false ?_ ?_
    · rintro ⟨rfl, -⟩
      exact absurd large (by decide)
    · rintro ⟨same, -⟩
      rw [← same] at leads
      exact absurd leads.1 (by decide)

theorem spellsEscape_cons_ne {unit : Nat} (plain : unit ≠ 0x25) (rest : List Nat) :
    spellsEscape (unit :: rest) = false := by
  rw [spellsEscape, List.any_eq_false]
  intro lost _
  have differs : ('%'.toNat == unit) = false := by
    rw [beq_eq_false_iff_ne]
    exact Ne.symm plain
  rw [escapeText_eq, List.map_cons, List.isPrefixOf_cons_cons, differs, Bool.false_and]
  decide

theorem spelledIn_letter {rest : List Nat} {pieces : List Piece} (letter : Char)
    (after : Reading rest pieces) :
    spelledIn (unitsOf letter ++ rest) =
      (if escapeHere (letter :: textOf pieces) then 1 else 0) + spelledIn rest := by
  rw [escapeHere_letter letter after]
  rcases unitsOf_cases letter with ⟨own, -⟩ | ⟨high, low, own, leads, trails, -⟩
  · rw [own]
    rfl
  · rw [isHighSurrogate_iff] at leads
    rw [isLowSurrogate_iff] at trails
    rw [own, List.cons_append, List.singleton_append, spelledIn, spelledIn,
      spellsEscape_cons_ne (by omega), spellsEscape_cons_ne (by omega)]
    simp

/-- A name's escapes are its units that are spelled out and the spellings among its
other units. -/
theorem Reading.escapesIn_textOf {units : List Nat} {pieces : List Piece}
    (reading : Reading units pieces) :
    escapesIn (textOf pieces) = undecodedIn units + spelledIn units := by
  induction reading with
  | nil => rfl
  | @letter letter rest pieces nonzero after ih =>
      have text : textOf (.letter letter :: pieces) = letter :: textOf pieces := rfl
      rw [text, escapesIn, ih, undecodedIn_letter nonzero, spelledIn_letter letter after]
      omega
  | @undecoded unit rest pieces undecodable after ih =>
      have text : textOf (.undecoded unit :: pieces) = escapeText unit ++ textOf pieces := rfl
      have known := undecodable.known
      have plain : unit ≠ 0x25 := by
        rw [mem_undecodables] at known
        omega
      rw [text, escapesIn_escapeText known, ih, undecodedIn_undecodable undecodable, spelledIn,
        spellsEscape_cons_ne plain]
      simp [Nat.add_assoc]

end Spellings

section Apart

/-- Names whose every escape is of a unit spelled out are told by their texts. -/
theorem Reading.units_unique {first second : List Nat} {pieces others : List Piece}
    (reading : Reading first pieces) (other : Reading second others) (told : spelledIn first = 0)
    (toldOther : spelledIn second = 0) (same : textOf pieces = textOf others) : first = second := by
  induction reading generalizing second others with
  | nil =>
      cases other with
      | nil => rfl
      | letter nonzero after => exact nomatch same
      | undecoded undecodable after => exact nomatch same
  | @letter letter rest pieces nonzero after ih =>
      rw [spelledIn_letter letter after] at told
      cases other with
      | nil => exact nomatch same
      | @letter letterOther restOther others nonzeroOther afterOther =>
          rw [spelledIn_letter letterOther afterOther] at toldOther
          obtain ⟨rfl, later⟩ := List.cons.inj same
          rw [ih afterOther (by omega) (by omega) later]
      | @undecoded unit restOther others undecodable afterOther =>
          have text : letter :: textOf pieces = escapeText unit ++ textOf others := same
          have here : escapeHere (letter :: textOf pieces) = true := by
            rw [text, escapeHere, List.any_eq_true]
            exact ⟨unit, undecodable.known, by simp⟩
          rw [if_pos here] at told
          omega
  | @undecoded unit rest pieces undecodable after ih =>
      cases other with
      | nil => exact nomatch same
      | @letter letter restOther others nonzero afterOther =>
          rw [spelledIn_letter letter afterOther] at toldOther
          have text : escapeText unit ++ textOf pieces = letter :: textOf others := same
          have here : escapeHere (letter :: textOf others) = true := by
            rw [← text, escapeHere, List.any_eq_true]
            exact ⟨unit, undecodable.known, by simp⟩
          rw [if_pos here] at toldOther
          omega
      | @undecoded unitOther restOther others undecodableOther afterOther =>
          have text : escapeText unit ++ textOf pieces = escapeText unitOther ++ textOf others := same
          have known := mem_undecodables.mp undecodable.known
          have knownOther := mem_undecodables.mp undecodableOther.known
          obtain ⟨own, later⟩ := List.append_inj text rfl
          rw [escapeText_injective (by omega) (by omega) own]
          rw [spelledIn] at told toldOther
          rw [ih afterOther (by omega) (by omega) later]

theorem exists_escape {text : List Char} (held : 1 ≤ escapesIn text) :
    ∃ before unit after, text = before ++ escapeText unit ++ after ∧ unit ∈ undecodables := by
  induction text with
  | nil => exact absurd held (by decide)
  | cons letter text ih =>
      by_cases here : escapeHere (letter :: text) = true
      · obtain ⟨unit, known, begins⟩ := List.any_eq_true.mp here
        obtain ⟨after, whole⟩ := List.isPrefixOf_iff_prefix.mp begins
        exact ⟨[], unit, after, whole.symm, known⟩
      · rw [escapesIn, if_neg here, Nat.zero_add] at held
        obtain ⟨before, unit, after, rfl, known⟩ := ih held
        exact ⟨letter :: before, unit, after, rfl, known⟩

/-- Two escapes of a text stand in two places. -/
theorem exists_two_escapes {text : List Char} (held : 2 ≤ escapesIn text) :
    ∃ before unit after later other rest,
      text = before ++ escapeText unit ++ after ∧ text = later ++ escapeText other ++ rest ∧
        before.length < later.length ∧ unit ∈ undecodables ∧ other ∈ undecodables := by
  induction text with
  | nil => exact absurd held (by decide)
  | cons letter text ih =>
      by_cases here : escapeHere (letter :: text) = true
      · rw [escapesIn, if_pos here] at held
        obtain ⟨unit, known, begins⟩ := List.any_eq_true.mp here
        obtain ⟨after, whole⟩ := List.isPrefixOf_iff_prefix.mp begins
        obtain ⟨later, other, rest, found, knownOther⟩ := @exists_escape text (by omega)
        exact ⟨[], unit, after, letter :: later, other, rest, whole.symm, by rw [found]; rfl,
          by simp, known, knownOther⟩
      · rw [escapesIn, if_neg here, Nat.zero_add] at held
        obtain ⟨before, unit, after, later, other, rest, first, second, shorter, known, knownOther⟩ :=
          ih held
        exact ⟨letter :: before, unit, after, letter :: later, other, rest, by rw [first]; rfl,
          by rw [second]; rfl, by simpa using shorter, known, knownOther⟩

/-- Nothing pairs with a surrogate among the units of whole characters. -/
theorem undecodable_before_text {unit : Nat} (known : unit ∈ undecodables) (text : List Char) :
    Undecodable unit (utf16 text) := by
  rw [mem_undecodables] at known
  by_cases direct : isDirectlyEscapable unit = true
  · exact .inl direct
  · rw [isDirectlyEscapable_iff] at direct
    refine .inr ⟨by rw [isHighSurrogate_iff]; omega, fun next member => ?_⟩
    cases text with
    | nil => exact nomatch member
    | cons letter text =>
        rw [utf16_cons] at member
        rcases unitsOf_cases letter with ⟨own, -, alone⟩ | ⟨high, low, own, leads, -, -⟩
        · rw [own, List.singleton_append, List.head?_cons, Option.mem_some_iff] at member
          rwa [← member]
        · rw [own, List.cons_append, List.head?_cons, Option.mem_some_iff] at member
          rw [isHighSurrogate_iff, member] at leads
          rw [← Bool.not_eq_true, isLowSurrogate_iff]
          omega

theorem reading_text {text : List Char} (filled : ∀ letter ∈ text, letter.toNat ≠ 0) :
    Reading (utf16 text) (text.map .letter) := by
  induction text with
  | nil => exact .nil
  | cons letter text ih =>
      exact .letter (filled letter List.mem_cons_self)
        (ih fun other member => filled other (List.mem_cons_of_mem _ member))

/-- A text around one unit that is spelled out. -/
theorem reading_around {before after : List Char} {unit : Nat} (known : unit ∈ undecodables)
    (filled : ∀ letter ∈ before, letter.toNat ≠ 0) (filledAfter : ∀ letter ∈ after, letter.toNat ≠ 0) :
    Reading (utf16 before ++ unit :: utf16 after)
      (before.map .letter ++ .undecoded unit :: after.map .letter) := by
  induction before with
  | nil => exact .undecoded (undecodable_before_text known after) (reading_text filledAfter)
  | cons letter before ih =>
      have own := filled letter List.mem_cons_self
      have later := ih fun other member => filled other (List.mem_cons_of_mem _ member)
      rw [utf16_cons, List.append_assoc]
      exact .letter own later

theorem textOf_letters (text : List Char) : textOf (text.map .letter) = text := by
  rw [textOf, List.flatMap_map]
  exact List.flatMap_singleton' text

theorem textOf_around (before after : List Char) (unit : Nat) :
    textOf (before.map .letter ++ .undecoded unit :: after.map .letter) =
      before ++ escapeText unit ++ after := by
  have letters (text : List Char) : (text.map Piece.letter).flatMap Piece.text = text :=
    textOf_letters text
  rw [textOf, List.flatMap_append, List.flatMap_cons, letters, letters, List.append_assoc]
  rfl

/-- Different places for the escape are different names. -/
theorem around_ne {before after later rest : List Char} {unit other : Nat}
    (known : unit ∈ undecodables)
    (same : before ++ escapeText unit ++ after = later ++ escapeText other ++ rest)
    (shorter : before.length < later.length) :
    utf16 before ++ unit :: utf16 after ≠ utf16 later ++ other :: utf16 rest := by
  obtain ⟨more, whole⟩ : before <+: later := by
    apply List.prefix_of_prefix_length_le _ _ (Nat.le_of_lt shorter)
    · exact before ++ escapeText unit ++ after
    · rw [List.append_assoc]
      exact List.prefix_append _ _
    · rw [same, List.append_assoc]
      exact List.prefix_append _ _
  subst whole
  cases more with
  | nil => simp at shorter
  | cons letter more =>
      rw [List.append_assoc, List.append_assoc, List.append_assoc, List.append_cancel_left_eq,
        escapeText_eq, List.cons_append, List.cons_append] at same
      have sigil : '%' = letter := (List.cons.inj same).1
      subst sigil
      intro equal
      have split : utf16 (before ++ '%' :: more) = utf16 before ++ 0x25 :: utf16 more := by
        simp [utf16, unitsOf]
      rw [split, List.append_assoc, List.append_cancel_left_eq, List.cons_append] at equal
      rw [(List.cons.inj equal).1, mem_undecodables] at known
      omega

end Apart

section Names

/-- A sequence of code units as it lies on disk. -/
def utf16leOf (units : List UInt16) : Bytes := unitBytes (units.map UInt16.toNat)

theorem toNat_small (units : List UInt16) : ∀ unit ∈ units.map UInt16.toNat, unit < 0x10000 := by
  intro unit member
  obtain ⟨word, -, rfl⟩ := List.mem_map.mp member
  exact word.toNat_lt

theorem decodeUtf16Name_unitBytes {units : List Nat} {pieces : List Piece}
    (small : ∀ unit ∈ units, unit < 0x10000) (reading : Reading units pieces) :
    decodeUtf16Name (unitBytes units) =
      ⟨utf8 (textOf pieces), !pieces.any Piece.isUndecoded⟩ := by
  rw [decodeUtf16Name, codeUnits_unitBytes small]
  have decoded := decodeFullUnits_of_reading reading (trailingByte none)
  rw [trailingByte, List.append_nil, Bool.true_and] at decoded
  exact decoded

theorem filled_textOf {units : List Nat} {pieces : List Piece} (reading : Reading units pieces) :
    ∀ letter ∈ textOf pieces, letter.toNat ≠ 0 := by
  intro letter member zero
  have byte : (0 : UInt8) ∈ String.utf8EncodeChar letter := by
    rw [utf8EncodeChar_ascii (by omega), zero]
    exact List.mem_singleton_self _
  exact zero_not_mem_of_reading reading (List.mem_flatMap.mpr ⟨letter, member, byte⟩)

theorem any_undecoded_iff {units : List Nat} {pieces : List Piece} (reading : Reading units pieces) :
    pieces.any Piece.isUndecoded = true ↔ undecodedIn units ≠ 0 := by
  rw [reading.undecodedIn_eq, Ne, List.countP_eq_zero]
  simp

theorem small_around {before after : List Char} {unit : Nat} (known : unit ∈ undecodables) :
    ∀ value ∈ utf16 before ++ unit :: utf16 after, value < 0x10000 := by
  have units (text : List Char) : ∀ value ∈ utf16 text, value < 0x10000 := by
    intro value member
    obtain ⟨letter, -, own⟩ := List.mem_flatMap.mp member
    have valid := letter.valid
    unfold UInt32.isValidChar Nat.isValidChar at valid
    have scalar : letter.val.toNat = letter.toNat := rfl
    unfold unitsOf at own
    split at own <;> simp only [List.mem_cons, List.not_mem_nil, or_false] at own <;> omega
  intro value member
  rw [mem_undecodables] at known
  rcases List.mem_append.mp member with first | rest
  · exact units before value first
  · rcases List.mem_cons.mp rest with rfl | later
    · omega
    · exact units after value later

/-- A reading of a text with one of its escapes taken for a unit spelled out. -/
theorem decodeUtf16Name_around {before after : List Char} {unit : Nat}
    (known : unit ∈ undecodables)
    (filled : ∀ letter ∈ before ++ escapeText unit ++ after, letter.toNat ≠ 0) :
    decodeUtf16Name (unitBytes (utf16 before ++ unit :: utf16 after)) =
      ⟨utf8 (before ++ escapeText unit ++ after), false⟩ := by
  have reading := @reading_around before after unit known
    (fun letter member => filled letter (by simp [member]))
    (fun letter member => filled letter (by simp [member]))
  rw [decodeUtf16Name_unitBytes (small_around known) reading, textOf_around]
  simp [Piece.isUndecoded]

theorem exists_words {units : List Nat} (small : ∀ unit ∈ units, unit < 0x10000) :
    ∃ words : List UInt16, words.map UInt16.toNat = units := by
  refine ⟨units.map UInt16.ofNat, ?_⟩
  rw [List.map_map]
  have same : ∀ unit ∈ units, (UInt16.toNat ∘ UInt16.ofNat) unit = id unit :=
    fun unit member => UInt16.toNat_ofNat_of_lt (small unit member)
  rw [List.map_congr_left same, List.map_id]

/-- A name is the only one that decodes as it does just when it is decoded whole, or
holds one escape in all. -/
theorem decodeUtf16Name_told_apart (units : List UInt16) :
    (∀ other : List UInt16,
        decodeUtf16Name (utf16leOf other) = decodeUtf16Name (utf16leOf units) → other = units) ↔
      undecodedIn (units.map UInt16.toNat) = 0 ∨
        undecodedIn (units.map UInt16.toNat) + spelledIn (units.map UInt16.toNat) = 1 := by
  obtain ⟨pieces, reading⟩ := exists_reading (toNat_small units)
  have decoded := decodeUtf16Name_unitBytes (toNat_small units) reading
  constructor
  · intro alone
    by_contra merged
    rw [not_or] at merged
    obtain ⟨lossy, several⟩ := merged
    have held : 2 ≤ escapesIn (textOf pieces) := by
      rw [reading.escapesIn_textOf]
      omega
    obtain ⟨before, unit, after, later, lost, rest, first, second, shorter, known, knownOther⟩ :=
      exists_two_escapes held
    have filled := filled_textOf reading
    rw [(any_undecoded_iff reading).mpr lossy, Bool.not_true] at decoded
    obtain ⟨words, own⟩ := exists_words (@small_around before after unit known)
    obtain ⟨others, ownOther⟩ := exists_words (@small_around later rest lost knownOther)
    have one : words = units := by
      apply alone
      rw [utf16leOf, utf16leOf, own, decoded, decodeUtf16Name_around known (first ▸ filled), ← first]
    have two : others = units := by
      apply alone
      rw [utf16leOf, utf16leOf, ownOther, decoded, decodeUtf16Name_around knownOther
        (second ▸ filled), ← second]
    apply around_ne known (first.symm.trans second) shorter
    rw [← own, ← ownOther, one, two]
  · intro told other same
    obtain ⟨others, readingOther⟩ := exists_reading (toNat_small other)
    rw [utf16leOf, utf16leOf, decoded, decodeUtf16Name_unitBytes (toNat_small other) readingOther,
      DecodedName.mk.injEq] at same
    obtain ⟨texts, flags⟩ := same
    have text : textOf others = textOf pieces := utf8_injective texts
    have flag : others.any Piece.isUndecoded = pieces.any Piece.isUndecoded := Bool.not_inj flags
    have injective : Function.Injective UInt16.toNat := fun _ _ => UInt16.toNat_inj.mp
    apply List.map_injective_iff.mpr injective
    by_cases lossy : undecodedIn (units.map UInt16.toNat) = 0
    · have whole : pieces.any Piece.isUndecoded = false := by
        rw [← Bool.not_eq_true, any_undecoded_iff reading, not_not, lossy]
      rw [← reading.units_eq, ← readingOther.units_eq, units_eq_utf16 whole,
        units_eq_utf16 (flag.trans whole), text]
    · have single := told.resolve_left lossy
      have lossyOther : undecodedIn (other.map UInt16.toNat) ≠ 0 := by
        rw [← any_undecoded_iff readingOther, flag, any_undecoded_iff reading]
        exact lossy
      have held := reading.escapesIn_textOf
      rw [← text, readingOther.escapesIn_textOf] at held
      exact readingOther.units_unique reading (by omega) (by omega) text

/-- A name may write out what another's undecodable unit is spelled as. -/
theorem decodeUtf16Name_merges :
    ¬∀ first second : List UInt16,
      decodeUtf16Name (utf16leOf first) = decodeUtf16Name (utf16leOf second) → first = second := by
  intro apart
  have merged := apart [0x25, 0x75, 0x44, 0x38, 0x30, 0x30, 0xD800] [0xD800, 0xD800] (by decide)
  exact absurd merged (by decide)

end Names

end NameDecode
end Revenant
