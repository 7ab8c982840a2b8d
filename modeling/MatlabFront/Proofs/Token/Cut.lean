import MatlabFront.Proofs.Token.Quoted

/-!
# Runs that are read again

How far a number, a literal or an operator reaches is found by looking at the characters behind it, a
few more of them than it takes. When the text is cut behind it, or goes on behind its end with a
blank or a dot, it is read again. There are three exceptions: a continuation that reaches to the end
of the text, a literal that does not close, and digits or dots with a further dot behind them.
-/

namespace MatlabFront

/-- A text that begins, if at all, with a blank, a newline or a dot. -/
def Halts (rest : List Char) : Prop := ∀ c ∈ rest.head?, c ∈ [' ', '\n', '.']

/-- A length that is read off the front of a text: it is no more than the text has, and it is read
again when the text is cut behind it and goes on with what halts. -/
structure Cuttable (length : List Char → Nat) : Prop where
  le (cs : List Char) : length cs ≤ cs.length
  cut {cs rest : List Char} {n : Nat} : length cs ≤ n → Halts rest →
    length (cs.take n ++ rest) = length cs

variable {rest : List Char}

/-- Text that halts is empty or begins with a blank, a newline or a dot. -/
theorem Halts.cases (halts : Halts rest) :
    rest = [] ∨ ∃ c more, rest = c :: more ∧ (c = ' ' ∨ c = '\n' ∨ c = '.') := by
  cases rest with
  | nil => exact .inl rfl
  | cons c more => exact .inr ⟨c, more, rfl, by simpa using halts c rfl⟩

/-- Text halts if its first character does. -/
theorem Halts.of_cons {c : Char} (stops : c ∈ [' ', '\n', '.']) : Halts (c :: rest) := by
  rintro _ ⟨⟩
  exact stops

namespace Lexeme

variable {test : Char → Bool} {cs : List Char} {n : Nat}

/-- A run is found character by character. -/
theorem run_cons (c : Char) (cs : List Char) :
    run test (c :: cs) = if test c = true then run test cs + 1 else 0 := by
  rw [run, List.takeWhile_cons]
  split
  · rfl
  · rfl

/-- A run is read again when the text is cut behind what ends it, or goes on with what ends it. -/
theorem run_cut (reach : run test cs ≤ n)
    (ends : run test cs < n ∧ n ≤ cs.length ∨ run test rest = 0) :
    run test (cs.take n ++ rest) = run test cs := by
  induction cs generalizing n with
  | nil =>
    obtain ⟨below, above⟩ | none := ends
    · exact absurd below (Nat.not_lt.mpr above)
    · rw [List.take_nil, List.nil_append, none]
      rfl
  | cons c cs ih =>
    rw [run_cons] at reach ends ⊢
    split at ends
    case isTrue goes =>
      rw [if_pos goes] at reach ⊢
      obtain ⟨m, rfl⟩ : ∃ m, n = m + 1 := ⟨n - 1, by omega⟩
      rw [List.take_succ_cons, List.cons_append, run_cons, if_pos goes, ih (by omega)]
      rw [List.length_cons] at ends
      exact ends.imp_left fun ⟨below, above⟩ => ⟨by omega, by omega⟩
    case isFalse stops =>
      rw [if_neg stops]
      cases n with
      | succ m => rw [List.take_succ_cons, List.cons_append, run_cons, if_neg stops]
      | zero => exact ends.resolve_left fun ⟨below, _⟩ => Nat.lt_irrefl 0 below

end Lexeme

namespace Cuttable

variable {first second : List Char → Nat}

/-- One length and another behind it. -/
theorem andThen (front : Cuttable first) (back : Cuttable second) :
    Cuttable fun cs => first cs + second (cs.drop (first cs)) where
  le cs := by
    have one := front.le cs
    have two := back.le (cs.drop (first cs))
    rw [List.length_drop] at two
    omega
  cut {cs rest n} reach halts := by
    have inside : first cs ≤ (cs.take n).length := by
      have one := front.le cs
      rw [List.length_take]
      omega
    rw [front.cut (by omega) halts, List.drop_append_of_le_length inside, List.drop_take,
      back.cut (by omega) halts]

/-- A run of characters that are no blanks, newlines or dots. -/
theorem run {test : Char → Bool}
    (stops : test ' ' = false ∧ test '\n' = false ∧ test '.' = false) :
    Cuttable (Lexeme.run test) where
  le _ := (List.takeWhile_prefix test).length_le
  cut reach halts := by
    obtain ⟨blank, newline, dot⟩ := stops
    refine Lexeme.run_cut reach (.inr ?_)
    obtain rfl | ⟨c, more, rfl, rfl | rfl | rfl⟩ := halts.cases
    · rfl
    · simp [Lexeme.run_cons, blank]
    · simp [Lexeme.run_cons, newline]
    · simp [Lexeme.run_cons, dot]

/-- Digits are cut off by what halts. -/
theorem digits : Cuttable (Lexeme.run Char.isDigit) := run ⟨rfl, rfl, rfl⟩

/-- An exponent is cut off by what halts. Whether it is one takes up to three characters to see. -/
theorem exponent : Cuttable Lexeme.exponentRun where
  le cs := by
    obtain _ | ⟨e, _ | ⟨sign, rest⟩⟩ := cs
    · exact Nat.le_refl _
    · simp [Lexeme.exponentRun]
    · have behind := digits.le rest
      have signed := digits.le (sign :: rest)
      simp only [Lexeme.exponentRun, List.length_cons] at *
      grind
  cut {cs rest n} reach halts := by
    have none : Lexeme.exponentRun rest = 0 := by
      obtain rfl | ⟨c, more, rfl, rfl | rfl | rfl⟩ := halts.cases <;> rfl
    -- Behind the letter of an exponent stands a sign or a digit.
    have letter (e : Char) : Lexeme.exponentRun (e :: rest) = 0 := by
      obtain rfl | ⟨c, more, rfl, rfl | rfl | rfl⟩ := halts.cases <;> exact ite_self 0
    obtain _ | ⟨e, cs⟩ := cs
    · rw [List.take_nil, List.nil_append, none]
      rfl
    obtain _ | n := n
    · rw [List.take_zero, List.nil_append, none, Nat.le_zero.mp reach]
    rw [List.take_succ_cons, List.cons_append]
    obtain _ | ⟨sign, behind⟩ := cs
    · rw [List.take_nil, List.nil_append, letter]
      exact (ite_self 0).symm
    obtain _ | n := n
    · have least : Lexeme.exponentRun (e :: sign :: behind) = 0 := by
        unfold Lexeme.exponentRun at reach ⊢
        grind
      rw [least]
      exact letter e
    · have signed : Lexeme.run Char.isDigit behind ≤ n →
          Lexeme.run Char.isDigit (behind.take n ++ rest) = Lexeme.run Char.isDigit behind :=
        fun reach => digits.cut reach halts
      have plain : Lexeme.run Char.isDigit (sign :: behind) ≤ n + 1 →
          Lexeme.run Char.isDigit (sign :: (behind.take n ++ rest)) =
            Lexeme.run Char.isDigit (sign :: behind) :=
        fun reach => digits.cut reach halts
      simp only [List.take_succ_cons, List.cons_append, Lexeme.exponentRun] at reach ⊢
      grind

/-- The mark of an imaginary number is cut off by what halts. -/
theorem imaginary : Cuttable Lexeme.imaginaryRun where
  le cs := by
    unfold Lexeme.imaginaryRun
    grind
  cut {cs rest n} reach halts := by
    have none : Lexeme.imaginaryRun rest = 0 := by
      obtain rfl | ⟨c, more, rfl, rfl | rfl | rfl⟩ := halts.cases <;> rfl
    obtain _ | ⟨c, cs⟩ := cs
    · rw [List.take_nil, List.nil_append, none]
      rfl
    obtain _ | n := n
    · rw [List.take_zero, List.nil_append, none, Nat.le_zero.mp reach]
    · rfl

/-- An exponent with the mark behind it is cut off by what halts. -/
theorem scale : Cuttable Lexeme.scaleRun := exponent.andThen imaginary

/-- The digits behind a point are cut off by what halts, with what scales them. -/
theorem fraction : Cuttable Lexeme.fractionRun := digits.andThen scale

/-- A length that is read from nothing is none in front of what halts. -/
theorem eq_zero {length : List Char → Nat} (cuttable : Cuttable length) (halts : Halts rest) :
    length rest = 0 := by
  have empty : length [] = 0 := Nat.le_zero.mp (cuttable.le [])
  have same : length (([] : List Char).take 0 ++ rest) = length [] :=
    cuttable.cut (Nat.le_of_eq empty) halts
  rwa [List.take_nil, List.nil_append, empty] at same

end Cuttable

namespace Lexeme

variable {cs : List Char} {n : Nat}

/-- The length of what stands in a number behind its digits. -/
def pointRun : List Char → Nat
  | [] => 0
  | c :: cs =>
    if c = '.' then if fractionRun cs = 0 ∧ leavesPoint cs = true then 0 else fractionRun cs + 1
    else scaleRun (c :: cs)

/-- A number is its digits and what stands behind them. -/
theorem numberRun_eq (cs : List Char) :
    numberRun cs = run Char.isDigit cs + pointRun (cs.drop (run Char.isDigit cs)) := by
  cases left : cs.drop (run Char.isDigit cs) with
  | nil =>
    simp only [numberRun, left]
    rfl
  | cons c later =>
    by_cases dot : c = '.'
    · subst dot
      simp only [numberRun, left, pointRun, if_true]
      grind
    · simp [numberRun, left, pointRun, dot]

/-- Without a point only a scale stands behind the digits of a number. -/
theorem pointRun_of_ne_dot (plain : cs.head? ≠ some '.') : pointRun cs = scaleRun cs := by
  cases cs with
  | nil => rfl
  | cons c cs => exact if_neg fun dot => plain (congrArg some dot)

/-- What stands behind the digits of a number is read again when the text is cut behind it, or goes
on behind its end. Where nothing is left of it, a dot would be read as the point. -/
theorem pointRun_cut (ends : n = pointRun cs ∨ n = cs.length) (halts : Halts rest)
    (apart : rest.head? = some '.' → cs.take n ≠ []) :
    pointRun (cs.take n ++ rest) = pointRun cs := by
  have none (empty : cs.take n = []) : pointRun rest = 0 :=
    (pointRun_of_ne_dot fun dot => apart dot empty).trans (Cuttable.scale.eq_zero halts)
  obtain _ | ⟨c, cs⟩ := cs
  · rw [List.take_nil, List.nil_append, none List.take_nil]
    rfl
  obtain _ | m := n
  · rw [List.take_zero, List.nil_append, none List.take_zero]
    exact ends.resolve_right (Nat.succ_ne_zero _).symm
  · rw [List.take_succ_cons, List.cons_append]
    by_cases dot : c = '.'
    · rw [pointRun, pointRun, if_pos dot, if_pos dot]
      rw [pointRun, if_pos dot, List.length_cons] at ends
      have fits := Cuttable.fraction.le cs
      have fraction : fractionRun (cs.take m ++ rest) = fractionRun cs :=
        Cuttable.fraction.cut (by split at ends <;> omega) halts
      have operator : fractionRun cs = 0 →
          leavesPoint (cs.take m ++ rest) = leavesPoint cs := by
        have plain : leavesPoint rest = false := by
          obtain rfl | ⟨c, more, rfl, rfl | rfl | rfl⟩ := halts.cases <;> rfl
        intro zero
        obtain _ | ⟨d, cs⟩ := cs
        · rwa [List.take_nil]
        obtain _ | m := m
        · grind
        · rfl
      grind
    · rw [pointRun, pointRun, if_neg dot, if_neg dot]
      have fits := Cuttable.scale.le (c :: cs)
      have scale : scaleRun ((c :: cs).take (m + 1) ++ rest) = scaleRun (c :: cs) := by
        refine Cuttable.scale.cut ?_ halts
        rw [pointRun, if_neg dot] at ends
        omega
      exact scale

/-- A number is no longer than the text. -/
theorem numberRun_le (cs : List Char) : numberRun cs ≤ cs.length := by
  have digits := Cuttable.digits.le cs
  have point (cs : List Char) : pointRun cs ≤ cs.length := by
    cases cs with
    | nil => exact Nat.le_refl _
    | cons c cs =>
      have fraction := Cuttable.fraction.le cs
      have scale := Cuttable.scale.le (c :: cs)
      simp only [pointRun, List.length_cons] at scale ⊢
      grind
  have behind := point (cs.drop (run Char.isDigit cs))
  rw [List.length_drop] at behind
  rw [numberRun_eq]
  omega

/-- A number is read again when the text is cut behind it, or goes on behind its end. A dot behind
digits would be read as their point. -/
theorem numberRun_cut (ends : n = numberRun cs ∨ n = cs.length) (halts : Halts rest)
    (apart : rest.head? = some '.' → ¬∀ c ∈ cs.take n, c.isDigit = true) :
    numberRun (cs.take n ++ rest) = numberRun cs := by
  have inside := Cuttable.digits.le cs
  have split := numberRun_eq cs
  have reach : run Char.isDigit cs ≤ n := by omega
  have digits : run Char.isDigit (cs.take n ++ rest) = run Char.isDigit cs :=
    Cuttable.digits.cut reach halts
  rw [numberRun_eq, split, digits,
    List.drop_append_of_le_length (by rw [List.length_take]; omega), List.drop_take]
  refine congrArg (run Char.isDigit cs + ·) (pointRun_cut ?_ halts fun dot empty => apart dot ?_)
  · rw [List.length_drop]
    omega
  · have cut : cs.take n = cs.take (run Char.isDigit cs) := by
      have whole := List.take_append_drop (run Char.isDigit cs) (cs.take n)
      rw [List.drop_take, empty, List.append_nil, List.take_take, Nat.min_eq_left reach] at whole
      exact whole.symm
    rw [cut, take_run]
    exact fun c => List.all_eq_true.mp List.all_takeWhile c

end Lexeme

/-- A literal is followed no further than the text goes. -/
theorem Literal.closingRun_le (quote : Char) (cs : List Char) :
    (closingRun quote cs).length ≤ cs.length := by
  fun_induction closingRun quote cs <;> simp_all [Reach.after]

/-- A literal is read again when the text is cut behind it, or further on, if what follows does not
make its delimiter a doubled one. A literal that reaches to where the text is cut has to be
closed. -/
theorem Literal.closingRun_cut {quote : Char} {cs : List Char} {n : Nat}
    (reach : (closingRun quote cs).length ≤ n) (inside : n ≤ cs.length)
    (closed : (closingRun quote cs).length = n → (closingRun quote cs).closed = true)
    (halts : Halts rest) (delimits : quote ∈ ['\'', '"']) :
    closingRun quote (cs.take n ++ rest) = closingRun quote cs := by
  have apart : rest.head? ≠ some quote := by
    simp only [List.mem_cons, List.not_mem_nil, or_false] at delimits
    obtain rfl | rfl := delimits
    · obtain rfl | ⟨c, more, rfl, rfl | rfl | rfl⟩ := halts.cases <;> simp
    · obtain rfl | ⟨c, more, rfl, rfl | rfl | rfl⟩ := halts.cases <;> simp
  have lone (plain : quote ≠ '\n') : closingRun quote (quote :: rest) = ⟨true, 1⟩ :=
    @closingRun_double quote [] rest plain nofun apart
  fun_induction closingRun quote cs generalizing n with
  | case1 => exact absurd (closed (Nat.le_zero.mp inside).symm) Bool.false_ne_true
  | case2 cs =>
    have below : 0 < n := Nat.pos_of_ne_zero fun none => Bool.false_ne_true (closed none.symm)
    obtain ⟨m, rfl⟩ := Nat.exists_eq_add_one.mpr below
    rw [List.take_succ_cons, List.cons_append, closingRun.eq_def]
    simp
  | case3 plain =>
    obtain ⟨m, rfl⟩ := Nat.exists_eq_add_one.mpr reach
    rw [List.take_succ_cons, List.take_nil]
    exact lone plain
  | case4 cs plain ih =>
    simp only [Reach.after, List.length_cons] at reach inside closed
    obtain ⟨m, rfl⟩ : ∃ m, n = m + 2 := ⟨n - 2, by omega⟩
    rw [List.take_succ_cons, List.take_succ_cons, List.cons_append, List.cons_append,
      closingRun.eq_def]
    have behind := @ih m (by omega) (by omega) fun same => closed (by omega)
    simp only [if_neg plain, if_true, behind]
  | case5 d cs differs plain =>
    obtain ⟨m, rfl⟩ := Nat.exists_eq_add_one.mpr reach
    rw [List.take_succ_cons, List.cons_append]
    cases m with
    | zero => exact lone plain
    | succ m =>
      rw [List.take_succ_cons, List.cons_append, closingRun.eq_def]
      simp [plain, differs]
  | case6 c cs line differs ih =>
    simp only [Reach.after, List.length_cons] at reach inside closed
    obtain ⟨m, rfl⟩ : ∃ m, n = m + 1 := ⟨n - 1, by omega⟩
    rw [List.take_succ_cons, List.cons_append, closingRun.eq_def]
    have behind := @ih m (by omega) (by omega) fun same => closed (by omega)
    simp only [if_neg line, if_neg differs, behind]

namespace Lexeme

variable {c : Char} {cs : List Char} {n : Nat}

/-- The second character of an operator is in the text. -/
theorem readPair_le (cs : List Char) (second : Char) (both single : Kind) :
    (readPair cs second both single).extra ≤ cs.length := by
  unfold readPair
  grind

/-- The second character of an operator is looked for again when the text is cut behind it. -/
theorem readPair_cut {second : Char} {both single : Kind}
    (reach : (readPair cs second both single).extra ≤ n) (halts : Halts rest)
    (other : second ∉ [' ', '\n', '.']) :
    readPair (cs.take n ++ rest) second both single = readPair cs second both single := by
  have none : readPair rest second both single = ⟨some single, 0⟩ := by
    simp only [List.mem_cons, List.not_mem_nil, or_false, not_or] at other
    obtain rfl | ⟨c, more, rfl, rfl | rfl | rfl⟩ := halts.cases
    · rfl
    · exact if_neg (Ne.symm other.1)
    · exact if_neg (Ne.symm other.2.1)
    · exact if_neg (Ne.symm other.2.2)
  obtain _ | ⟨c, cs⟩ := cs
  · rw [List.take_nil, List.nil_append, none]
    rfl
  obtain _ | n := n
  · rw [List.take_zero, List.nil_append, none]
    unfold readPair at reach ⊢
    grind
  · rfl

/-- What a continuation takes is in the text. -/
theorem continuationRun_le (cs : List Char) : continuationRun cs ≤ cs.length := by
  have line : run (· != '\n') cs ≤ cs.length := (List.takeWhile_prefix _).length_le
  unfold continuationRun
  dsimp only
  split
  · exact line
  · next left =>
    have behind := congrArg List.length left
    rw [List.length_drop, List.length_cons] at behind
    omega

/-- A continuation that has ended in its text is read again when the text goes on. -/
theorem continuationRun_append (inside : continuationRun cs < cs.length) (rest : List Char) :
    continuationRun (cs ++ rest) = continuationRun cs := by
  have line : run (· != '\n') cs < cs.length →
      run (· != '\n') (cs ++ rest) = run (· != '\n') cs := by
    intro below
    have cut : run (· != '\n') (cs.take cs.length ++ rest) = run (· != '\n') cs :=
      run_cut (Nat.le_of_lt below) (.inl ⟨below, Nat.le_refl _⟩)
    rwa [List.take_length] at cut
  unfold continuationRun at inside ⊢
  cases left : cs.drop (run (· != '\n') cs) with
  | nil =>
    simp only [left] at inside
    exact absurd (List.drop_eq_nil_iff.mp left) (Nat.not_le.mpr inside)
  | cons d later =>
    have below : run (· != '\n') cs < cs.length := by
      simp only [left] at inside
      omega
    simp only [line below, List.drop_append_of_le_length (Nat.le_of_lt below), left, List.cons_append]

/-- What a dot takes with it is in the text. -/
theorem readDot_le (cs : List Char) : (readDot cs).extra ≤ cs.length := by
  have fraction := Cuttable.fraction.le
  unfold readDot
  grind [continuationRun_le]

/-- A dot makes a number, an operator or a continuation with what stands behind it. -/
theorem readDot_cons (c : Char) (cs : List Char) :
    readDot (c :: cs) =
      if c.isDigit then ⟨some .number, 1 + fractionRun cs⟩
      else match dottedOperator? c with
        | some kind => ⟨some kind, 1⟩
        | none =>
          if c = '.' ∧ cs.head? = some '.' then ⟨none, 2 + continuationRun cs.tail⟩
          else ⟨some .dot, 0⟩ := by
  cases cs with
  | nil => cases known : dottedOperator? c <;> simp [readDot, known]
  | cons d cs => cases known : dottedOperator? c <;> simp [readDot, known]

/-- Three dots take the rest of the line and make no token. -/
theorem readDot_dots (line : List Char) :
    readDot ('.' :: '.' :: line) = ⟨none, 2 + continuationRun line⟩ := rfl

/-- What stands behind a dot is read again when the text is cut behind it, or goes on behind its
end, unless it is a continuation that has not ended. A dot behind the first one or two would be read
together with them. -/
theorem readDot_cut (ends : n = (readDot cs).extra ∨ n = cs.length)
    (reaches : (readDot cs).extra = n → (readDot cs).kind ≠ none) (halts : Halts rest)
    (apart : rest.head? = some '.' → cs.take n ∉ [[], ['.']]) :
    readDot (cs.take n ++ rest) = readDot cs := by
  have alone (plain : rest.head? ≠ some '.') : readDot rest = ⟨some .dot, 0⟩ := by
    obtain rfl | ⟨c, more, rfl, rfl | rfl | rfl⟩ := halts.cases
    · rfl
    · cases more <;> rfl
    · cases more <;> rfl
    · exact absurd rfl plain
  match cs with
  | [] =>
    rw [List.take_nil, List.nil_append]
    refine alone fun dot => apart dot ?_
    rw [List.take_nil]
    decide
  | c :: later =>
    have cut {m : Nat} (same : n = m + 1) :
        (c :: later).take n ++ rest = c :: (later.take m ++ rest) := by
      rw [same, List.take_succ_cons, List.cons_append]
    by_cases digit : c.isDigit = true
    · have reads (more : List Char) :
          readDot (c :: more) = ⟨some .number, 1 + fractionRun more⟩ := by
        rw [readDot_cons, if_pos digit]
      have fits := Cuttable.fraction.le later
      simp only [reads, List.length_cons] at ends
      obtain ⟨m, same⟩ : ∃ m, n = m + 1 := ⟨n - 1, by omega⟩
      rw [cut same, reads, reads, Cuttable.fraction.cut (by omega) halts]
    cases known : dottedOperator? c with
    | some kind =>
      have reads (more : List Char) : readDot (c :: more) = ⟨some kind, 1⟩ := by
        rw [readDot_cons, if_neg digit, known]
      simp only [reads, List.length_cons] at ends
      obtain ⟨m, same⟩ : ∃ m, n = m + 1 := ⟨n - 1, by omega⟩
      rw [cut same, reads, reads]
    | none =>
      by_cases dots : c = '.' ∧ later.head? = some '.'
      · obtain ⟨rfl, head⟩ := dots
        obtain ⟨line, rfl⟩ := List.head?_eq_some_iff.mp head
        rw [readDot_dots] at ends reaches ⊢
        obtain rfl : n = ('.' :: line).length + 1 :=
          ends.resolve_left fun same => reaches same.symm rfl
        have inside : continuationRun line < line.length := by
          have less : 2 + continuationRun line ≠ line.length + 2 := fun same => reaches same rfl
          have le := continuationRun_le line
          omega
        rw [cut rfl, List.take_length, List.cons_append, readDot_dots,
          continuationRun_append inside]
      · have lone {more : List Char} (other : ¬(c = '.' ∧ more.head? = some '.')) :
            readDot (c :: more) = ⟨some .dot, 0⟩ := by
          rw [readDot_cons, if_neg digit, known]
          exact if_neg other
        rw [lone dots] at ends ⊢
        obtain rfl | rfl := ends
        · exact alone fun dot => apart dot List.mem_cons_self
        · rw [cut rfl, List.take_length]
          refine lone ?_
          rintro ⟨rfl, second⟩
          cases later with
          | nil => exact apart second (by simp)
          | cons d later => exact dots ⟨rfl, second⟩

end Lexeme

end MatlabFront
