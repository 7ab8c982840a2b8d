import MatlabFront.Token.LineIndex
import MatlabFront.Proofs.Token.Lossless

/-!
# Line numbers

The line of a token is one more than the number of newlines in front of the token, and it is the
line that the index of the text gives for the offset of the token. Reading counts newlines on its
way, with those that make no token; the index never sees tokens at all. Both agree with a count of
newline bytes, which needs that no other character is written with such a byte.
-/

namespace MatlabFront

namespace Lookup

variable {entries : Array Nat} {value first size : Nat}

/-- Entries that increase are ordered by their indices. -/
theorem entry_lt (increasing : entries.toList.Pairwise (· < ·)) {place other : Nat}
    (inside : other < entries.size) (before : place < other) : entries[place] < entries[other] :=
  List.pairwise_iff_getElem.mp increasing place other (Nat.lt_trans before inside) inside before

/-- Entries that increase are in the order of their places. -/
theorem entry_le (increasing : entries.toList.Pairwise (· < ·)) {place other : Nat}
    (inside : other < entries.size) (before : place ≤ other) : entries[place] ≤ entries[other] := by
  obtain rfl | before := Nat.eq_or_lt_of_le before
  · exact Nat.le_refl _
  · exact Nat.le_of_lt (entry_lt increasing inside before)

/-- What is known of a value while a part of some entries is halved. -/
structure Enclosed (entries : Array Nat) (value first size : Nat) : Prop where
  /-- Nothing stands in front of the part, or its first entry does not exceed the value. -/
  below : first = 0 ∨ ∃ inside : first < entries.size, entries[first] ≤ value
  /-- What stands behind the part exceeds the value. -/
  above : ∀ place, ∀ inside : place < entries.size, first + size ≤ place → value < entries[place]

/-- The part in front of an entry that exceeds the value encloses it. -/
theorem Enclosed.front (increasing : entries.toList.Pairwise (· < ·))
    (enclosed : Enclosed entries value first size) (inside : first + size / 2 < entries.size)
    (exceeds : value < entries[first + size / 2]) :
    Enclosed entries value first (size - size / 2) := by
  refine ⟨enclosed.below, fun place within behind => ?_⟩
  -- The front is no shorter than half, so what stands behind it is not in front of the middle.
  have later : first + size / 2 ≤ place := by omega
  exact Nat.lt_of_lt_of_le exceeds (entry_le increasing within later)

/-- The part that begins with an entry up to the value encloses it. -/
theorem Enclosed.back (enclosed : Enclosed entries value first size)
    (inside : first + size / 2 < entries.size) (reached : entries[first + size / 2] ≤ value) :
    Enclosed entries value (first + size / 2) (size - size / 2) :=
  ⟨.inr ⟨inside, reached⟩, fun place within behind =>
    enclosed.above place within (by omega)⟩

/-- The entry that is left encloses the value. -/
theorem narrow_enclosed (increasing : entries.toList.Pairwise (· < ·)) (filled : 0 < size)
    (inside : first + size ≤ entries.size) (enclosed : Enclosed entries value first size) :
    Enclosed entries value (narrow entries value first size filled inside) 1 := by
  fun_induction narrow entries value first size filled inside with
  | case1 first filled inside => exact enclosed
  | case2 first size filled inside single exceeds ih =>
    exact ih (enclosed.front increasing (by omega) exceeds)
  | case3 first size filled inside single reached ih =>
    exact ih (enclosed.back (by omega) (Nat.le_of_not_lt reached))

/-- What may be answered to a search for a value among increasing entries. -/
inductive Answers (entries : Array Nat) (value : Nat) : Lookup → Prop where
  | found {index : Nat} (inside : index < entries.size) : entries[index] = value →
    Answers entries value (.found index)
  | absent {index : Nat} (inside : index ≤ entries.size) :
    (∀ place, ∀ within : place < index, entries[place] < value) →
    (∀ place, ∀ within : place < entries.size, index ≤ place → value < entries[place]) →
    Answers entries value (.absent index)

/-- An entry that encloses the value settles the search. -/
theorem ofLast_answers (increasing : entries.toList.Pairwise (· < ·)) {last : Fin entries.size}
    (enclosed : Enclosed entries value last 1) :
    Answers entries value (ofLast entries value last) := by
  unfold ofLast
  split
  case isTrue same => exact .found last.isLt same
  case isFalse other =>
    split
    case isTrue below =>
      refine .absent last.isLt (fun place within => ?_) enclosed.above
      exact Nat.lt_of_le_of_lt (entry_le increasing last.isLt (Nat.le_of_lt_succ within)) below
    case isFalse above =>
      -- An entry above the value is left only when nothing stands in front of it.
      have exceeds : value < entries[last] := by omega
      have front : (last : Nat) = 0 := enclosed.below.resolve_right fun ⟨_, reached⟩ =>
        absurd exceeds (Nat.not_lt_of_le reached)
      refine .absent (Nat.le_of_lt last.isLt) (fun place within => by omega)
        fun place within behind => ?_
      exact Nat.lt_of_lt_of_le exceeds (entry_le increasing within behind)

/-- A search by halving answers right. -/
theorem ofEntries_answers (increasing : entries.toList.Pairwise (· < ·)) (value : Nat) :
    Answers entries value (ofEntries entries value) := by
  unfold ofEntries
  split
  case isFalse empty =>
    exact .absent (Nat.zero_le _) (fun _ within => by omega) fun _ within => by omega
  case isTrue filled =>
    refine ofLast_answers increasing (narrow_enclosed increasing filled _ ⟨.inl rfl, ?_⟩)
    intro place within behind
    omega

/-- As many entries do not exceed a value as stand in front of the first one that does. -/
theorem countP_of_bound {index : Nat} (inside : index ≤ entries.size)
    (below : ∀ place, ∀ within : place < index, entries[place] ≤ value)
    (above : ∀ place, ∀ within : place < entries.size, index ≤ place → value < entries[place]) :
    entries.countP (· ≤ value) = index := by
  have front : (entries.toList.take index).countP (· ≤ value) = index := by
    have all : ∀ entry ∈ entries.toList.take index, decide (entry ≤ value) = true := by
      intro entry within
      obtain ⟨place, bound, rfl⟩ := List.mem_take_iff_getElem.mp within
      exact decide_eq_true (below place (by omega))
    rw [List.countP_eq_length.mpr all, List.length_take, Array.length_toList]
    exact Nat.min_eq_left inside
  have back : (entries.toList.drop index).countP (· ≤ value) = 0 := by
    refine List.countP_eq_zero.mpr fun entry within => ?_
    obtain ⟨place, bound, rfl⟩ := List.mem_drop_iff_getElem.mp within
    have bound : index + place < entries.size := by
      rw [Array.length_toList] at bound
      omega
    have exceeds := above (index + place) bound (Nat.le_add_right index place)
    simpa using exceeds
  rw [← Array.countP_toList, ← List.take_append_drop index entries.toList, List.countP_append,
    front, back, Nat.add_zero]

/-- A right answer tells how many entries do not exceed the value. -/
theorem Answers.countP {lookup : Lookup} (increasing : entries.toList.Pairwise (· < ·))
    (answers : Answers entries value lookup) : entries.countP (· ≤ value) = lookup.rank := by
  cases answers with
  | @found index inside same =>
    refine countP_of_bound inside (fun place within => ?_) fun place within behind => ?_
    · rw [← same]
      exact entry_le increasing inside (Nat.le_of_lt_succ within)
    · rw [← same]
      exact entry_lt increasing within behind
  | absent inside below above =>
    exact countP_of_bound inside (fun place within => Nat.le_of_lt (below place within)) above

end Lookup

/-- The line of a place is the number of lines that start at or in front of it. -/
theorem LineIndex.lineOf_eq_countP (index : LineIndex) (offset : Nat) :
    index.lineOf offset = index.starts.countP (· ≤ offset) :=
  ((Lookup.ofEntries_answers index.increasing offset).countP index.increasing).symm

/-- The number of newline bytes in front of an offset of a text. -/
def newlineBytes (text : String) (offset : Nat) : Nat :=
  (text.toByteArray.data.toList.take offset).count '\n'.toUInt8

/-- A character beyond the first 128 is written with bytes beyond them. -/
theorem utf8EncodeChar_large {c : Char} (large : 127 < c.val.toNat) :
    ∀ byte ∈ String.utf8EncodeChar c, 128 ≤ byte.toNat := by
  rw [String.utf8EncodeChar, if_neg (Nat.not_le_of_lt large)]
  -- Two, three or four bytes, each with a lead of its own.
  split
  case isTrue =>
    simp only [List.forall_mem_cons, List.not_mem_nil, UInt8.toNat_ofNat', false_implies,
      implies_true, and_true]
    omega
  case isFalse =>
    split
    all_goals
      simp only [List.forall_mem_cons, List.not_mem_nil, UInt8.toNat_ofNat', false_implies,
        implies_true, and_true]
      omega

/-- Only a newline is written with the byte of a newline. -/
theorem eq_newline_of_mem {c : Char} (inside : '\n'.toUInt8 ∈ String.utf8EncodeChar c) :
    c = '\n' := by
  have ten : '\n'.toUInt8.toNat = 10 := rfl
  have small : c.val.toNat ≤ 127 := Nat.le_of_not_lt fun large => by
    have above : 128 ≤ '\n'.toUInt8.toNat := utf8EncodeChar_large large _ inside
    omega
  rw [String.utf8EncodeChar, if_pos small, List.mem_singleton] at inside
  have code : c.val.toNat % 256 = 10 := by
    rw [← ten, inside, UInt8.toNat_ofNat']
  exact Char.toNat_inj.mp (show c.val.toNat = 10 by omega)

/-- The newline bytes in front of an offset are those of the newlines in front of it. -/
theorem count_take_flatMap (offset count : Nat) (cs : List Char) :
    ((cs.flatMap String.utf8EncodeChar).take count).count '\n'.toUInt8 =
      (newlines offset cs).countP (· < offset + count) := by
  induction cs generalizing offset count with
  | nil => simp [newlines]
  | cons c cs ih =>
    have tail : (newlines (offset + c.utf8Size) cs).countP
          (· < offset + c.utf8Size + (count - c.utf8Size)) =
        (newlines (offset + c.utf8Size) cs).countP (· < offset + count) := by
      refine List.countP_congr fun place inside => ?_
      have behind := le_of_mem_newlines inside
      simp only [decide_eq_true_eq]
      omega
    rw [List.flatMap_cons, List.take_append, List.count_append, String.length_utf8EncodeChar, ih,
      tail, newlines]
    split
    case isTrue newline =>
      subst newline
      have written : String.utf8EncodeChar '\n' = ['\n'.toUInt8] := rfl
      rw [written, List.countP_cons, Nat.add_comm]
      cases count <;> simp
    case isFalse other =>
      have none : ((String.utf8EncodeChar c).take count).count '\n'.toUInt8 = 0 :=
        List.count_eq_zero.mpr fun inside => other (eq_newline_of_mem (List.mem_of_mem_take inside))
      rw [none, Nat.zero_add]

/-- The newline bytes in front of an offset, as places of newlines. -/
theorem newlineBytes_eq_countP (text : String) (offset : Nat) :
    newlineBytes text offset = (newlines 0 text.toList).countP (· < offset) := by
  have bytes : text.toByteArray.data.toList = text.toList.flatMap String.utf8EncodeChar := by
    rw [← String.ofList_toList (s := text), String.toByteArray_ofList, String.toList_ofList,
      List.utf8Encode, List.data_toByteArray]
  rw [newlineBytes, bytes, count_take_flatMap 0, Nat.zero_add]

/-- The bytes of a text are those of its first character and of the rest. -/
theorem byteSize_cons (c : Char) (cs : List Char) :
    byteSize (c :: cs) = c.utf8Size + byteSize cs := by
  have single : byteSize [c] = c.utf8Size := by simp [byteSize]
  rw [← single, ← byteSize_append, List.singleton_append]

/-- The newlines in front of some text are those of the text in front of it. -/
theorem countP_newlines_append (offset : Nat) (before after : List Char) :
    (newlines offset (before ++ after)).countP (· < offset + byteSize before) =
      before.count '\n' := by
  induction before generalizing offset with
  | nil =>
    refine List.countP_eq_zero.mpr fun place inside => ?_
    have behind := le_of_mem_newlines inside
    have empty : byteSize [] = 0 := rfl
    simp only [decide_eq_true_eq, empty]
    omega
  | cons c before ih =>
    have reach : offset + byteSize (c :: before) = offset + c.utf8Size + byteSize before := by
      rw [byteSize_cons, Nat.add_assoc]
    have positive : 0 < c.utf8Size := c.utf8Size_pos
    rw [List.cons_append, newlines, reach, List.count_cons, ← ih]
    split
    case isTrue newline =>
      have within : decide (offset < offset + c.utf8Size + byteSize before) = true :=
        decide_eq_true (by omega)
      rw [List.countP_cons, if_pos within, if_pos (beq_iff_eq.mpr newline)]
    case isFalse other =>
      rw [if_neg (by simpa using other), Nat.add_zero]

/-- The line of any offset of a text is one more than the number of newline bytes in front of it. -/
theorem LineIndex.lineOf_ofText (text : String) (offset : Nat) :
    (LineIndex.ofText text).lineOf offset = 1 + newlineBytes text offset := by
  have starts : (LineIndex.ofText text).starts = lineStarts text := rfl
  rw [LineIndex.lineOf_eq_countP, starts, lineStarts, ← Array.countP_toList, List.countP_cons,
    List.countP_map, newlineBytes_eq_countP, Nat.add_comm]
  rfl

/-- A place that is reached over the front of some text which starts at a position. -/
def Position.Reaches (start : Position) (cs : List Char) (place : Position) : Prop :=
  ∃ before after, cs = before ++ after ∧ place = Context.advance start before

/-- A place that is reached from behind some text is reached over that text. -/
theorem Position.Reaches.over {start place : Position} {cs : List Char} (text : List Char)
    (reaches : (Context.advance start text).Reaches cs place) :
    start.Reaches (text ++ cs) place := by
  obtain ⟨before, after, rfl, rfl⟩ := reaches
  exact ⟨text ++ before, after, (List.append_assoc ..).symm,
    (Context.advance_append start text before).symm⟩

/-- Reading reaches every token over what stands in front of it, tokens or not. -/
theorem Context.reaches_of_mem_tokens {token : Token} (context : Context) (cs : List Char)
    (inside : token ∈ context.tokens cs) : context.pos.Reaches cs token.pos := by
  induction context, cs using Context.tokens.induct with
  | case1 context =>
    rw [Context.tokens] at inside
    cases inside
  | case2 context c cs lexeme text silent ih =>
    have whole : text ++ cs.drop lexeme.extra = c :: cs :=
      congrArg (c :: ·) (List.take_append_drop _ _)
    rw [Context.tokens, silent] at inside
    rw [← whole]
    exact (ih inside).over text
  | case3 context c cs lexeme text kind known ih =>
    have whole : text ++ cs.drop lexeme.extra = c :: cs :=
      congrArg (c :: ·) (List.take_append_drop _ _)
    rw [Context.tokens, known] at inside
    obtain rfl | later := List.mem_cons.mp inside
    · exact ⟨[], c :: cs, rfl, by simp [Context.token, Context.advance]⟩
    · rw [← whole]
      exact (ih later).over text

/-- Tokens know their lines. The starts of the lines of a text begin with zero and increase. The
line of any offset is the number of starts up to it, and one more than the number of newline bytes
in front of it. The line of a token is the line of its offset. -/
theorem Token.ofText_lineNumbers (text : String) :
    (LineIndex.ofText text).starts[0]? = some 0 ∧
    (LineIndex.ofText text).starts.toList.Pairwise (· < ·) ∧
    (∀ offset, (LineIndex.ofText text).lineOf offset =
        (LineIndex.ofText text).starts.countP (· ≤ offset) ∧
      (LineIndex.ofText text).lineOf offset = 1 + newlineBytes text offset) ∧
    ∀ token ∈ Token.ofText text, token.pos.line = 1 + newlineBytes text token.pos.offset ∧
      token.pos.line = (LineIndex.ofText text).lineOf token.pos.offset := by
  refine ⟨(LineIndex.ofText text).first, (LineIndex.ofText text).increasing, fun offset =>
    ⟨LineIndex.lineOf_eq_countP _ offset, LineIndex.lineOf_ofText text offset⟩,
    fun token inside => ?_⟩
  obtain ⟨before, after, whole, place⟩ := Context.start.reaches_of_mem_tokens _ inside
  have line : token.pos.line = 1 + before.count '\n' := by rw [place]; rfl
  have offset : token.pos.offset = 0 + byteSize before := by rw [place]; rfl
  have counted : newlineBytes text token.pos.offset = before.count '\n' := by
    rw [newlineBytes_eq_countP, offset, whole, countP_newlines_append]
  have numbered : token.pos.line = 1 + newlineBytes text token.pos.offset := by rw [line, counted]
  exact ⟨numbered, numbered.trans (LineIndex.lineOf_ofText text token.pos.offset).symm⟩

/-- Newlines are counted that make no token, inside parentheses and with a continuation, and the one
behind a string that does not close. -/
theorem Token.ofText_lineNumbers_unclosed :
    ⟨.ident, "x", ⟨5, 23⟩⟩ ∈ Token.ofText "f(1,\n'é', ...\n2)\n'abc\nx" ∧
      newlineBytes "f(1,\n'é', ...\n2)\n'abc\nx" 23 = 4 ∧
      (LineIndex.ofText "f(1,\n'é', ...\n2)\n'abc\nx").lineOf 23 = 5 := by
  have inside : ⟨.ident, "x", ⟨5, 23⟩⟩ ∈ Token.ofText "f(1,\n'é', ...\n2)\n'abc\nx" :=
    List.mem_of_getLast? (by decide +kernel)
  obtain ⟨-, -, -, numbered⟩ := Token.ofText_lineNumbers "f(1,\n'é', ...\n2)\n'abc\nx"
  obtain ⟨line, indexed⟩ := numbered _ inside
  exact ⟨inside, by dsimp only at line; omega, indexed.symm⟩

end MatlabFront
