import Revenant.MountTable

/-!
# The kernel's mount table is read as it was written

A line of the table holds its fields with single spaces between them, the fields that can
hold any character escaped, and a lone `-` behind the optional ones.  Split, and its
escapes undone, every line is read as the mount it was written for.
-/

namespace Revenant

open ByteLayout

section Splitting

/-- Splitting, and leaving out the parts that are empty. -/
theorem splitOn_eq (text : Bytes) (separator : UInt8) :
    splitOn text separator = (text.splitOn separator).filter fun part => !part.isEmpty := by
  fun_induction splitOn text separator with
  | case1 => rfl
  | case2 text nonempty part ih =>
      have own : separator ∉ part := fun member => by
        simpa using List.mem_takeWhile_imp member
      have joined : text = part ++ text.dropWhile (· ≠ separator) :=
        List.takeWhile_append_dropWhile.symm
      have behind : text.drop part.length = text.dropWhile (· ≠ separator) := by
        conv_lhs => rw [joined, List.drop_left]
      rw [ih]
      rcases rest : text.dropWhile (· ≠ separator) with _ | ⟨first, later⟩
      · have dropped : text.drop (part.length + 1) = [] := by
          rw [← List.drop_drop, behind, rest]
          rfl
        have whole : text = part := by rw [joined, rest, List.append_nil]
        rw [dropped, whole, List.splitOn_eq_singleton own]
        cases part <;> rfl
      · have stops : first = separator := by
          have head := List.head?_dropWhile_not (· ≠ separator) text
          rw [rest] at head
          simpa using head
        have dropped : text.drop (part.length + 1) = later := by
          rw [← List.drop_drop, behind, rest]
          rfl
        rw [dropped, joined, rest, stops, List.splitOn_append_cons_self_of_not_mem own]
        cases part <;> rfl

theorem splitOn_intercalate {parts : List Bytes} {separator : UInt8}
    (free : ∀ part ∈ parts, separator ∉ part) (some_ : ∀ part ∈ parts, part ≠ []) :
    splitOn ([separator].intercalate parts) separator = parts := by
  rw [splitOn_eq]
  rcases parts.eq_nil_or_concat with rfl | ⟨front, last, rfl⟩
  · rfl
  · rw [List.splitOn_intercalate separator free (by simp), List.filter_eq_self]
    intro part member
    rw [List.isEmpty_eq_false_iff.mpr (some_ part member), Bool.not_false]

/-- What stands in joined parts is the separator or stands in a part. -/
theorem mem_intercalate {parts : List Bytes} {separator letter : UInt8}
    (member : letter ∈ [separator].intercalate parts) :
    letter = separator ∨ ∃ part ∈ parts, letter ∈ part := by
  induction parts with
  | nil => cases member
  | cons part parts ih =>
      rcases parts.eq_nil_or_concat with rfl | ⟨front, last, rfl⟩
      · rw [List.intercalate_singleton] at member
        exact .inr ⟨part, List.mem_cons_self, member⟩
      · rw [List.intercalate_cons_of_ne_nil (by simp), List.append_assoc] at member
        rcases List.mem_append.mp member with own | behind
        · exact .inr ⟨part, List.mem_cons_self, own⟩
        · rcases List.mem_cons.mp behind with here | later
          · exact .inl here
          · rcases ih later with same | ⟨other, listed, stands⟩
            · exact .inl same
            · exact .inr ⟨other, List.mem_cons_of_mem _ listed, stands⟩

/-- A part before a separator is split off. -/
theorem splitOn_append {part : Bytes} {separator : UInt8} (free : separator ∉ part)
    (some_ : part ≠ []) (rest : Bytes) :
    splitOn (part ++ separator :: rest) separator = part :: splitOn rest separator := by
  rw [splitOn_eq, splitOn_eq, List.splitOn_append_cons_self_of_not_mem free, List.filter_cons_of_pos]
  rw [List.isEmpty_eq_false_iff.mpr some_, Bool.not_false]

end Splitting

section Lines

/-- Escapes under which a field holds nothing that ends a field or a line. -/
structure FieldEscapes extends EscapeSet where
  space : escapes 0x20 = true
  newline : escapes 0x0A = true

/-- A field that is written as it is: a word that is not the separator. -/
structure IsWord (field : Bytes) : Prop where
  some_ : field ≠ []
  lone : field ≠ kSeparator
  space : 0x20 ∉ field
  newline : 0x0A ∉ field

/-- What the kernel tells of one mount. -/
structure MountLine where
  mountId : Nat
  parentId : Nat
  major : UInt32
  minor : UInt32
  root : Bytes
  point : Bytes
  options : Bytes
  tags : List Bytes
  type : Bytes
  source : Bytes
  superOptions : Bytes
  rooted : root.head? = some 0x2F
  pointed : point.head? = some 0x2F
  worded : ∀ field ∈ superOptions :: options :: tags, IsWord field
  typed : type ≠ []
  sourced : source ≠ []

namespace MountLine

variable (escaping : FieldEscapes) (line : MountLine)

def front : List Bytes :=
  [decimal line.mountId, decimal line.parentId, deviceText line.major line.minor,
    escaping.escaped line.root, escaping.escaped line.point, line.options] ++ line.tags

def fields : List Bytes :=
  line.front escaping ++ [kSeparator, escaping.escaped line.type, escaping.escaped line.source,
    line.superOptions]

def text : Bytes := [0x20].intercalate (line.fields escaping)

/-- The mount the line is written for. -/
def mount : Mount where
  point := line.point
  fsDevice := deviceKey line.major.toUInt64 line.minor.toUInt64
  from_ := ⟨line.type, line.source⟩

end MountLine

def tableText (escaping : FieldEscapes) (lines : List MountLine) : Bytes :=
  lines.flatMap fun line => line.text escaping ++ [0x0A]

end Lines

section Words

variable (escaping : FieldEscapes)

theorem not_mem_octalEscape (letter : UInt8) :
    0x20 ∉ octalEscape letter ∧ 0x0A ∉ octalEscape letter := by
  have spelled : ∀ value < 256, 0x20 ∉ octalEscape (UInt8.ofNat value) ∧
      0x0A ∉ octalEscape (UInt8.ofNat value) := by
    decide +kernel
  have spells := spelled letter.toNat letter.toNat_lt
  rwa [UInt8.ofNat_toNat] at spells

/-- A character that is escaped does not stand in an escaped field. -/
theorem not_mem_escaped {letter : UInt8} (escapes : escaping.escapes letter = true)
    (free : ∀ other, letter ∉ octalEscape other) (field : Bytes) :
    letter ∉ escaping.escaped field := by
  intro member
  obtain ⟨other, -, stands⟩ := List.mem_flatMap.mp member
  by_cases same : escaping.escapes other = true
  · rw [if_pos same] at stands
    exact free other stands
  · rw [if_neg same] at stands
    rw [List.mem_singleton.mp stands] at escapes
    exact same escapes

theorem space_not_mem_escaped (field : Bytes) : 0x20 ∉ escaping.escaped field :=
  not_mem_escaped escaping escaping.space (fun other => (not_mem_octalEscape other).1) field

theorem newline_not_mem_escaped (field : Bytes) : 0x0A ∉ escaping.escaped field :=
  not_mem_escaped escaping escaping.newline (fun other => (not_mem_octalEscape other).2) field

theorem escaped_ne_nil {field : Bytes} (some_ : field ≠ []) : escaping.escaped field ≠ [] := by
  intro empty
  have back := unescaped_escaped escaping.toEscapeSet field
  rw [empty, unescaped] at back
  exact some_ back.symm

/-- An escaped field is a word, unless it is empty or the separator itself. -/
theorem isWord_escaped {field : Bytes} (some_ : field ≠ []) (lone : field ≠ kSeparator) :
    IsWord (escaping.escaped field) where
  some_ := escaped_ne_nil escaping some_
  lone same := by
    have back := unescaped_escaped escaping.toEscapeSet field
    have dash : unescaped kSeparator = kSeparator := by
      rw [kSeparator, ascii]
      decide +kernel
    rw [same, dash] at back
    exact lone back.symm
  space := space_not_mem_escaped escaping field
  newline := newline_not_mem_escaped escaping field

theorem isWord_decimal (number : Nat) : IsWord (decimal number) where
  some_ := decimal_ne_nil number
  lone same := by
    have member : 0x2D ∈ decimal number := by
      rw [same]
      decide
    exact absurd (digit_of_mem_decimal member).1 (by decide)
  space member := absurd (digit_of_mem_decimal member).1 (by decide)
  newline member := absurd (digit_of_mem_decimal member).1 (by decide)

theorem isWord_deviceText (major minor : UInt32) : IsWord (deviceText major minor) where
  some_ := by simp [deviceText]
  lone same := by
    have colon : 0x3A ∈ deviceText major minor := by simp [deviceText]
    rw [same] at colon
    exact absurd colon (by decide)
  space member := by
    rcases List.mem_append.mp member with early | late
    · exact (isWord_decimal major.toNat).space early
    · rcases List.mem_cons.mp late with colon | later
      · exact absurd colon (by decide)
      · exact (isWord_decimal minor.toNat).space later
  newline member := by
    rcases List.mem_append.mp member with early | late
    · exact (isWord_decimal major.toNat).newline early
    · rcases List.mem_cons.mp late with colon | later
      · exact absurd colon (by decide)
      · exact (isWord_decimal minor.toNat).newline later

end Words

section Reading

variable (escaping : FieldEscapes) (line : MountLine)

/-- A path that begins at the root is not empty and not the separator. -/
theorem ne_of_rooted {path : Bytes} (rooted : path.head? = some 0x2F) :
    path ≠ [] ∧ path ≠ kSeparator := by
  constructor
  · rintro rfl
    cases rooted
  · rintro rfl
    exact absurd rooted (by decide)

theorem MountLine.isWord_front : ∀ field ∈ line.front escaping, IsWord field := by
  have rooted := ne_of_rooted line.rooted
  have pointed := ne_of_rooted line.pointed
  intro field member
  rcases List.mem_append.mp member with early | tag
  · simp only [List.mem_cons, List.not_mem_nil, or_false] at early
    rcases early with rfl | rfl | rfl | rfl | rfl | rfl
    · exact isWord_decimal line.mountId
    · exact isWord_decimal line.parentId
    · exact isWord_deviceText line.major line.minor
    · exact isWord_escaped escaping rooted.1 rooted.2
    · exact isWord_escaped escaping pointed.1 pointed.2
    · exact line.worded _ (by simp)
  · exact line.worded field (by simp [tag])

/-- Every field is there, and none of them holds a space or ends the line. -/
theorem MountLine.fields_plain : ∀ field ∈ line.fields escaping,
    field ≠ [] ∧ 0x20 ∉ field ∧ 0x0A ∉ field := by
  have last := line.worded line.superOptions List.mem_cons_self
  have escaped {field : Bytes} (some_ : field ≠ []) : escaping.escaped field ≠ [] ∧
      0x20 ∉ escaping.escaped field ∧ 0x0A ∉ escaping.escaped field :=
    ⟨escaped_ne_nil escaping some_, space_not_mem_escaped escaping field,
      newline_not_mem_escaped escaping field⟩
  intro field member
  rcases List.mem_append.mp member with early | late
  · have word := line.isWord_front escaping field early
    exact ⟨word.some_, word.space, word.newline⟩
  · simp only [List.mem_cons, List.not_mem_nil, or_false] at late
    rcases late with rfl | rfl | rfl | rfl
    · decide
    · exact escaped line.typed
    · exact escaped line.sourced
    · exact ⟨last.some_, last.space, last.newline⟩

theorem MountLine.splitOn_text : splitOn (line.text escaping) 0x20 = line.fields escaping :=
  splitOn_intercalate (fun field member => (line.fields_plain escaping field member).2.1)
    fun field member => (line.fields_plain escaping field member).1

theorem MountLine.separatorIn_fields :
    separatorIn (line.fields escaping) = some (line.front escaping).length := by
  have none_before : (line.front escaping).findIdx (· == kSeparator) =
      (line.front escaping).length := by
    rw [List.findIdx_eq_length]
    intro field member
    exact beq_eq_false_iff_ne.mpr (line.isWord_front escaping field member).lone
  have place : (line.fields escaping).findIdx (· == kSeparator) = (line.front escaping).length := by
    rw [MountLine.fields, List.findIdx_append, none_before, if_neg (Nat.lt_irrefl _),
      List.findIdx_cons, beq_self_eq_true]
    exact Nat.zero_add _
  have long : (line.fields escaping).length = (line.front escaping).length + 4 := List.length_append
  rw [separatorIn, place, if_neg]
  rw [long]
  unfold kSourceAfterSeparator
  omega

/-- A line is read as the mount it was written for. -/
theorem MountLine.mountIn_text : mountIn (line.text escaping) = some line.mount := by
  have long : (line.fields escaping).length = (line.front escaping).length + 4 := List.length_append
  have behind (place : Nat) : (line.fields escaping).getD ((line.front escaping).length + place) [] =
      [kSeparator, escaping.escaped line.type, escaping.escaped line.source,
        line.superOptions].getD place [] := by
    rw [MountLine.fields, List.getD_eq_getElem?_getD,
      List.getElem?_append_right (Nat.le_add_right _ _), Nat.add_sub_cancel_left,
      List.getD_eq_getElem?_getD]
  have point : (line.fields escaping).getD kMountPointField [] = escaping.escaped line.point := rfl
  have device : (line.fields escaping).getD kDeviceField [] = deviceText line.major line.minor := rfl
  have enough : ¬(line.fields escaping).length ≤ kMountPointField := by
    rw [long]
    simp only [MountLine.front, List.length_append, List.length_cons, kMountPointField]
    omega
  rw [mountIn, line.splitOn_text, line.separatorIn_fields]
  dsimp only
  rw [if_neg enough, point, device, behind, behind, deviceKeyIn_deviceText]
  show some (Mount.mk (unescaped (escaping.escaped line.point)) _
    ⟨unescaped (escaping.escaped line.type), unescaped (escaping.escaped line.source)⟩) = _
  rw [unescaped_escaped, unescaped_escaped, unescaped_escaped]
  rfl

/-- The table is read as the mounts it was written for, in its order. -/
theorem mountsIn_tableText (lines : List MountLine) :
    mountsIn (tableText escaping lines) = lines.map MountLine.mount := by
  induction lines with
  | nil => rw [tableText, List.flatMap_nil, mountsIn, splitOn, if_pos rfl]; rfl
  | cons line lines ih =>
      have shape : tableText escaping (line :: lines) =
          line.text escaping ++ 0x0A :: tableText escaping lines := by
        rw [tableText, List.flatMap_cons, List.append_assoc]
        rfl
      have free : 0x0A ∉ line.text escaping := by
        intro member
        rcases mem_intercalate member with same | ⟨field, listed, stands⟩
        · exact absurd same (by decide)
        · exact (line.fields_plain escaping field listed).2.2 stands
      have some_ : line.text escaping ≠ [] := by
        intro empty
        have split := line.splitOn_text escaping
        rw [empty, splitOn, if_pos rfl] at split
        exact absurd (congrArg List.length split) (by simp [MountLine.fields, MountLine.front])
      rw [mountsIn, shape, splitOn_append free some_,
        List.filterMap_cons_some (line.mountIn_text escaping)]
      exact congrArg _ ih

end Reading

end Revenant
