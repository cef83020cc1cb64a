import SheetMarkup.Source.Tag
import SheetMarkup.Text.Blank

/-!
# Offsets in a text

A place in a text is given by what stands before it, or by an offset: the number of bytes that this
takes in UTF-8. Not every offset is a place, so a part of a text between two offsets need not exist
(`slice?`), and a byte need not be a character. Here the operations on offsets are described by what
stands before and behind: slices (`slice?_eq`), single bytes (`byte?_eq_iff`, `exists_byte?_pred`),
searches (`indexOf?_eq`), the offset of a character with a given index (`byteOffset_eq`) and the
line of an offset (`lineAt_eq`).
-/

namespace SheetMarkup.Text

/-! ## Bytes -/

/-- The bytes that characters take. -/
def bytes : List Char → Nat
  | [] => 0
  | c :: cs => c.utf8Size + bytes cs

@[simp] theorem bytes_nil : bytes [] = 0 := rfl

@[simp] theorem bytes_cons (c : Char) (cs : List Char) :
    bytes (c :: cs) = c.utf8Size + bytes cs := rfl

theorem length_le_bytes (cs : List Char) : cs.length ≤ bytes cs := by
  induction cs with
  | nil => exact Nat.le_refl 0
  | cons c cs ih =>
    have := c.utf8Size_pos
    simp only [List.length_cons, bytes_cons]
    omega

@[simp] theorem bytes_append (a b : List Char) : bytes (a ++ b) = bytes a + bytes b := by
  induction a with
  | nil => simp
  | cons c a ih => simp [ih, Nat.add_assoc]

/-- The encoding of characters. -/
def encoding (cs : List Char) : List UInt8 := cs.flatMap String.utf8EncodeChar

@[simp] theorem encoding_append (a b : List Char) :
    encoding (a ++ b) = encoding a ++ encoding b := by
  simp [encoding]

@[simp] theorem length_encoding (cs : List Char) : (encoding cs).length = bytes cs := by
  induction cs with
  | nil => rfl
  | cons c cs ih =>
    rw [encoding] at ih ⊢
    rw [List.flatMap_cons, List.length_append, String.length_utf8EncodeChar, ih, bytes_cons]

theorem toByteArray_eq (source : String) :
    source.toByteArray = (encoding source.toList).toByteArray :=
  String.utf8Encode_toList.symm

theorem utf8ByteSize_eq (source : String) : source.utf8ByteSize = bytes source.toList := by
  rw [← String.size_toByteArray, toByteArray_eq, List.size_toByteArray, length_encoding]

/-! ## Places and slices -/

variable {source : String} {before middle after : List Char}

/-- Whether a character of the source begins at this offset, or the source ends there. -/
def IsPlace (source : String) (offset : Nat) : Prop := String.Pos.Raw.IsValid source ⟨offset⟩

theorem IsPlace.isValid {offset : Nat} (h : IsPlace source offset) :
    String.Pos.Raw.IsValid source ⟨offset⟩ := h

theorem isPlace_iff {offset : Nat} :
    IsPlace source offset ↔
      ∃ before after, source.toList = before ++ after ∧ offset = bytes before := by
  rw [IsPlace, String.Pos.Raw.isValid_iff_exists_append]
  constructor
  · rintro ⟨s, t, rfl, eq⟩
    refine ⟨s.toList, t.toList, by simp, ?_⟩
    rw [← utf8ByteSize_eq]
    exact congrArg String.Pos.Raw.byteIdx eq
  · rintro ⟨before, after, eq, rfl⟩
    refine ⟨String.ofList before, String.ofList after, ?_, ?_⟩
    · rw [← String.ofList_append, ← eq, String.ofList_toList]
    · apply String.Pos.Raw.ext
      rw [String.byteIdx_rawEndPos, utf8ByteSize_eq, String.toList_ofList]

theorem isPlace_bytes (h : source.toList = before ++ after) : IsPlace source (bytes before) :=
  isPlace_iff.mpr ⟨before, after, h, rfl⟩

instance (source : String) (offset : Nat) : Decidable (IsPlace source offset) :=
  inferInstanceAs (Decidable (String.Pos.Raw.IsValid source ⟨offset⟩))

/-- The part of a source between two offsets. There is none if one of them is beyond the end or
inside of a character, or if they are not in order. -/
def slice? (source : String) (start stop : Nat) : Option String :=
  if h : start ≤ stop ∧ IsPlace source start ∧ IsPlace source stop then
    some (source.extract (source.pos ⟨start⟩ h.2.1.isValid) (source.pos ⟨stop⟩ h.2.2.isValid))
  else none

theorem slice?_eq (h : source.toList = before ++ (middle ++ after)) :
    slice? source (bytes before) (bytes before + bytes middle) = some (String.ofList middle) := by
  have first : IsPlace source (bytes before) := isPlace_bytes h
  have last : IsPlace source (bytes before + bytes middle) := by
    rw [← bytes_append]
    exact isPlace_bytes (h.trans (List.append_assoc ..).symm)
  rw [slice?, dif_pos ⟨Nat.le_add_right _ _, first, last⟩, Option.some.injEq]
  apply String.toByteArray_inj.mp
  have total : (encoding source.toList).toByteArray = (encoding before).toByteArray ++
      ((encoding middle).toByteArray ++ (encoding after).toByteArray) := by
    rw [h, encoding_append, encoding_append, List.toByteArray_append, List.toByteArray_append]
  have start : bytes before = (encoding before).toByteArray.size := by simp
  have stop : bytes middle = (encoding middle).toByteArray.size := by simp
  rw [String.toByteArray_extract, String.offset_pos, String.offset_pos, toByteArray_eq, total,
    toByteArray_eq, String.toList_ofList]
  change ByteArray.extract _ (bytes before + 0) (bytes before + bytes middle) = _
  rw [start, ByteArray.extract_append_size_add, stop, ByteArray.extract_append_eq_left rfl]

theorem slice?_rest (h : source.toList = before ++ after) :
    slice? source (bytes before) source.utf8ByteSize = some (String.ofList after) := by
  have whole : source.toList = before ++ (after ++ []) := by rw [List.append_nil, h]
  rw [utf8ByteSize_eq, h, bytes_append]
  exact slice?_eq whole

theorem slice?_between {before middle after : List Char}
    (h : source.toList = before ++ middle ++ after) :
    slice? source (bytes before) (bytes (before ++ middle)) = some (String.ofList middle) := by
  rw [bytes_append]
  exact slice?_eq (h.trans (List.append_assoc ..))

theorem bytes_le_size (h : source.toList = before ++ after) :
    bytes before ≤ source.utf8ByteSize := by
  rw [utf8ByteSize_eq, h, bytes_append]
  exact Nat.le_add_right _ _

/-- Where a text ends when its end is trimmed is a place in the source. -/
theorem isPlace_trimEnd {before t after : List Char} (h : source.toList = before ++ t ++ after) :
    bytes before + bytes (trimEnd t) ≤ bytes (before ++ t) ∧
      IsPlace source (bytes before + bytes (trimEnd t)) := by
  obtain ⟨blanks, split, -⟩ := exists_blanks_append_trimEnd t
  have whole : before ++ t = before ++ trimEnd t ++ blanks := by
    rw [List.append_assoc, ← split]
  rw [whole, List.append_assoc _ blanks] at h
  rw [whole, bytes_append _ blanks, ← bytes_append before]
  exact ⟨Nat.le_add_right _ _, isPlace_bytes h⟩

/-! ## Single bytes -/

/-- The byte at an offset. -/
def byte? (source : String) (offset : Nat) : Option UInt8 := source.toByteArray.data[offset]?

theorem byte?_eq (source : String) (offset : Nat) :
    byte? source offset = (encoding source.toList)[offset]? := by
  rw [byte?, toByteArray_eq, List.data_toByteArray, List.getElem?_toArray]

/-- A byte below 128 is a character by itself, and is not a part of any other one. -/
theorem utf8EncodeChar_of_mem {d : Char} {b : UInt8} (mem : b ∈ String.utf8EncodeChar d)
    (low : b.toNat < 128) : String.utf8EncodeChar d = [b] ∧ d.toNat = b.toNat := by
  unfold String.utf8EncodeChar at mem ⊢
  dsimp only at mem ⊢
  split at mem
  · next small =>
    cases List.mem_singleton.mp mem
    rw [if_pos small]
    refine ⟨rfl, ?_⟩
    rw [UInt8.toNat_ofNat', Nat.mod_eq_of_lt (Nat.lt_of_le_of_lt small (by decide))]
    rfl
  · split at mem
    · simp only [List.mem_cons, List.not_mem_nil, or_false] at mem
      rcases mem with rfl | rfl <;> simp only [UInt8.toNat_ofNat'] at low <;> omega
    · split at mem
      · simp only [List.mem_cons, List.not_mem_nil, or_false] at mem
        rcases mem with rfl | rfl | rfl <;> simp only [UInt8.toNat_ofNat'] at low <;> omega
      · simp only [List.mem_cons, List.not_mem_nil, or_false] at mem
        rcases mem with rfl | rfl | rfl | rfl <;> simp only [UInt8.toNat_ofNat'] at low <;> omega

theorem utf8EncodeChar_ne_nil (d : Char) : String.utf8EncodeChar d ≠ [] := by
  rw [← List.length_pos_iff, String.length_utf8EncodeChar]
  exact d.utf8Size_pos

theorem utf8EncodeChar_of_lt {c : Char} (ascii : c.toNat < 128) :
    String.utf8EncodeChar c = [c.toUInt8] := by
  apply String.utf8EncodeChar_eq_singleton
  rw [Char.utf8Size_eq_one_iff, UInt32.le_iff_toNat_le]
  exact Nat.le_of_lt_succ ascii

/-- The byte of a character below 128 is in the encoding of this character only. -/
theorem eq_of_toUInt8_mem {c d : Char} (ascii : c.toNat < 128)
    (mem : c.toUInt8 ∈ String.utf8EncodeChar d) : d = c := by
  have value : c.toUInt8.toNat = c.toNat := by
    apply Nat.mod_eq_of_lt
    exact Nat.lt_trans ascii (by decide)
  have low : c.toUInt8.toNat < 128 := by rwa [value]
  exact Char.toNat_inj.mp ((utf8EncodeChar_of_mem mem low).2.trans value)

/-- The byte at a place is a character below 128 if this is the next character. -/
theorem byte?_eq_iff (h : source.toList = before ++ after) {c : Char} (ascii : c.toNat < 128) :
    byte? source (bytes before) = some c.toUInt8 ↔ after.head? = some c := by
  have here : byte? source (bytes before) = (encoding after).head? := by
    rw [byte?_eq, h, encoding_append, List.getElem?_append_right (by simp), length_encoding,
      Nat.sub_self, List.head?_eq_getElem?]
  rw [here]
  cases after with
  | nil => simp [encoding]
  | cons d after =>
    obtain ⟨b, more, encoded⟩ := List.exists_cons_of_ne_nil (utf8EncodeChar_ne_nil d)
    rw [encoding, List.flatMap_cons, encoded, List.cons_append, List.head?_cons, List.head?_cons,
      Option.some.injEq, Option.some.injEq]
    constructor
    · rintro rfl
      exact eq_of_toUInt8_mem ascii (by simp [encoded])
    · rintro rfl
      exact (List.cons.inj (encoded.symm.trans (utf8EncodeChar_of_lt ascii))).1

/-- There is a byte before a place, and it is a character below 128 if this is the last one. -/
theorem exists_byte?_pred (h : source.toList = before ++ after) (ne : before ≠ []) :
    ∃ b, byte? source (bytes before - 1) = some b ∧
      ∀ c : Char, c.toNat < 128 → (b = c.toUInt8 ↔ before.getLast? = some c) := by
  obtain ⟨init, d, eq⟩ := (List.eq_nil_or_concat before).resolve_left ne
  obtain ⟨more, b, encoded⟩ :=
    (List.eq_nil_or_concat (String.utf8EncodeChar d)).resolve_left (utf8EncodeChar_ne_nil d)
  rw [List.concat_eq_append] at eq encoded
  have ends : encoding before = encoding init ++ more ++ [b] := by
    rw [eq, encoding_append, encoding, encoding, List.flatMap_singleton, encoded,
      List.append_assoc]
  have positive : 0 < (encoding before).length := List.length_pos_iff.mpr (by rw [ends]; simp)
  refine ⟨b, ?_, ?_⟩
  · rw [byte?_eq, h, encoding_append, ← length_encoding before,
      List.getElem?_append_left (Nat.sub_lt positive Nat.one_pos), ← List.getLast?_eq_getElem?,
      ends, List.getLast?_concat]
  · intro c ascii
    rw [eq, List.getLast?_concat, Option.some.injEq]
    constructor
    -- no character from 128 on has a byte below 128
    · rintro rfl
      exact eq_of_toUInt8_mem ascii (by simp [encoded])
    · rintro rfl
      have single := encoded.symm.trans (utf8EncodeChar_of_lt ascii)
      exact List.singleton_inj.mp (List.append_inj' (single.trans (List.nil_append _).symm) rfl).2

/-! ## Searches -/

/-- The offset at which a mark stands first in a text. -/
def indexOf? (mark : List Char) : List Char → Option Nat
  | [] => none
  | c :: cs =>
    if mark.isPrefixOf (c :: cs) then some 0
    else (indexOf? mark cs).map (c.utf8Size + ·)

theorem indexOf?_eq (mark cs : List Char) :
    indexOf? mark cs = (splitAtMark? mark cs).map fun split => bytes split.1 := by
  induction cs with
  | nil => rfl
  | cons c cs ih =>
    rw [indexOf?, splitAtMark?]
    split
    · rfl
    · rw [ih, Option.map_map, Option.map_map]
      simp only [Function.comp_def, bytes_cons]

/-! ## Characters by their index -/

/-- The characters of a text that begins at an offset, each with its own offset. -/
def charIndices (offset : Nat) : List Char → List (Nat × Char)
  | [] => []
  | c :: cs => (offset, c) :: charIndices (offset + c.utf8Size) cs

/-- The offset of the character with this index, or of the end if there is no such character. -/
def byteOffset (cs : List Char) (index : Nat) : Nat :=
  ((charIndices 0 cs)[index]?.map Prod.fst).getD (bytes cs)

theorem byteOffset_eq (cs : List Char) (index : Nat) :
    byteOffset cs index = bytes (cs.take index) := by
  have from_offset : ∀ offset, ((charIndices offset cs)[index]?.map Prod.fst).getD
      (offset + bytes cs) = offset + bytes (cs.take index) := by
    induction cs generalizing index with
    | nil => simp [charIndices]
    | cons c cs ih =>
      intro offset
      cases index with
      | zero => simp [charIndices]
      | succ index =>
        have next := ih index (offset + c.utf8Size)
        simpa [charIndices, Nat.add_assoc] using next
  have from_start := from_offset 0
  rwa [Nat.zero_add, Nat.zero_add] at from_start

theorem toList_take {pre interior post : List Char}
    (h : source.toList = pre ++ interior ++ post) (index : Nat) :
    source.toList = pre ++ interior.take index ++ (interior.drop index ++ post) := by
  rw [h, List.append_assoc, List.append_assoc, ← List.append_assoc (interior.take index),
    List.take_append_drop]

/-- Where a character of a part of the source begins is a place in the source. -/
theorem isPlace_index {pre interior post : List Char}
    (h : source.toList = pre ++ interior ++ post) (index : Nat) :
    bytes pre + byteOffset interior index ≤ bytes (pre ++ interior) ∧
      IsPlace source (bytes pre + byteOffset interior index) := by
  rw [byteOffset_eq, ← bytes_append]
  refine ⟨?_, isPlace_bytes (toList_take h index)⟩
  rw [← List.take_append_drop index interior, ← List.append_assoc, bytes_append _ (interior.drop _),
    List.take_append_drop]
  exact Nat.le_add_right _ _

/-! ## Lines -/

/-- Where the lines of a text start that begins at an offset, but for the first one: behind each
line feed. -/
def lineStarts (offset : Nat) (cs : List Char) : List Nat :=
  ((charIndices offset cs).filter fun entry => entry.2 = '\n').map fun entry => entry.1 + 1

/-- The line of an offset: the number of lines that start there or before. -/
def lineAt (source : String) (offset : Nat) : Nat :=
  ((0 :: lineStarts 0 source.toList).takeWhile fun start => start ≤ offset).length

theorem lineStarts_cons (offset : Nat) (c : Char) (cs : List Char) :
    lineStarts offset (c :: cs) =
      (if c = '\n' then [offset + 1] else []) ++ lineStarts (offset + c.utf8Size) cs := by
  unfold lineStarts
  rw [charIndices, List.filter_cons]
  by_cases feed : c = '\n' <;> simp [feed]

theorem lt_of_mem_lineStarts {offset start : Nat} {cs : List Char}
    (mem : start ∈ lineStarts offset cs) : offset < start := by
  induction cs generalizing offset with
  | nil => cases mem
  | cons c cs ih =>
    rw [lineStarts_cons, List.mem_append] at mem
    rcases mem with here | later
    · split at here
      · simp only [List.mem_singleton] at here
        omega
      · cases here
    · exact Nat.lt_of_le_of_lt (Nat.le_add_right _ _) (ih later)

/-- Of the lines of a text, those start at a place or before whose line feed stands before it. -/
theorem takeWhile_lineStarts (offset : Nat) (before after : List Char) :
    ((lineStarts offset (before ++ after)).takeWhile fun start =>
      start ≤ offset + bytes before).length = lineFeeds before := by
  induction before generalizing offset with
  | nil =>
    cases starts : lineStarts offset after with
    | nil => simp [starts, lineFeeds]
    | cons start more =>
      have mem : start ∈ lineStarts offset after := by
        rw [starts]
        exact List.mem_cons_self
      -- a line that starts in what follows starts behind a line feed of it
      have past : ¬ start ≤ offset + bytes [] := Nat.not_le_of_lt (lt_of_mem_lineStarts mem)
      rw [List.nil_append, starts, List.takeWhile_cons, decide_eq_false past]
      rfl
  | cons c before ih =>
    have next := ih (offset + c.utf8Size)
    rw [Nat.add_assoc, ← bytes_cons] at next
    rw [List.cons_append, lineStarts_cons]
    by_cases feed : c = '\n'
    · subst feed
      have starts : offset + 1 ≤ offset + bytes ('\n' :: before) := by
        rw [bytes_cons, show ('\n' : Char).utf8Size = 1 from rfl]
        omega
      rw [if_pos rfl, List.singleton_append, List.takeWhile_cons, decide_eq_true starts, if_pos rfl,
        List.length_cons, next]
      simp [lineFeeds]
    · rw [if_neg feed, List.nil_append, next]
      simp [lineFeeds, feed]

theorem lineAt_eq (h : source.toList = before ++ after) :
    lineAt source (bytes before) = 1 + lineFeeds before := by
  have later := takeWhile_lineStarts 0 before after
  rw [Nat.zero_add, ← h] at later
  rw [lineAt, List.takeWhile_cons, decide_eq_true (Nat.zero_le _), if_pos rfl, List.length_cons,
    later, Nat.add_comm]

theorem lineAt_size (source : String) :
    lineAt source source.utf8ByteSize = 1 + lineFeeds source.toList := by
  have whole : source.toList = source.toList ++ [] := (List.append_nil _).symm
  rw [utf8ByteSize_eq]
  exact lineAt_eq whole

theorem lineAt_index {pre interior post : List Char}
    (h : source.toList = pre ++ interior ++ post) (index : Nat) :
    lineAt source (bytes pre + byteOffset interior index) =
      1 + lineFeeds (pre ++ interior.take index) := by
  rw [byteOffset_eq, ← bytes_append, lineAt_eq (toList_take h index)]

end SheetMarkup.Text
