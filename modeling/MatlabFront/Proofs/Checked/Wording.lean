import MatlabFront.Proofs.Checked.Cursor

/-!
# How breaches are worded

Some breaches are reported with a message, like a failure. No failure is worded like one, whatever
texts stand in its message, with the exception of the complaint about a token that is an error.
-/

namespace MatlabFront

/-- The wording of a failure, without its place. -/
def Failure.message : Failure → String
  | .syntaxFault complaint _ _ => complaint.message
  | .invalidTarget flaw _ => flaw.message

namespace Checked

/-- A failure that is not worded like a breach. -/
def Ordinary (failure : Failure) : Prop :=
  ∀ breach : Breach, breach.message? ≠ some failure.message

/-- What a breach is reported with begins in one of a few ways. -/
theorem head?_of_message {breach : Breach} {text : String} (worded : breach.message? = some text) :
    text.toList.head? ∈ [some 'f', some 'u', some 'e', some 'i'] := by
  cases breach with
  | overflow | underflow | splitCharacter | unplacedOperator | unplacedMarks => cases worded
  | _ =>
    obtain rfl := Option.some.inj worded
    decide +kernel

/-- A text begins as its first part does. -/
theorem head?_append {opening : String} {first : Char}
    (opens : opening.toList.head? = some first) (rest : String) :
    (opening ++ rest).toList.head? = some first := by
  rw [String.toList_append, List.head?_append, opens, Option.some_or]

/-- A message with some other beginning is not that of a breach, whatever text stands in it. -/
theorem ne_of_head? {opening : String} (first : Char)
    (opens : opening.toList.head? = some first)
    (other : some first ∉ [some 'f', some 'u', some 'e', some 'i']) (rest : String)
    (breach : Breach) : breach.message? ≠ some (opening ++ rest) := by
  intro worded
  have head := head?_of_message worded
  rw [head?_append opens] at head
  exact other head

/-- No kind of token is called like what a breach misses. -/
theorem phrase_ne (kind : Kind) : kind.phrase ≠ "'.'" ∧ kind.phrase ≠ "command name" := by
  cases kind <;> decide +kernel

/-- The message of a missing token is not that of a breach. -/
theorem message_missing (kind : Kind) (breach : Breach) :
    breach.message? ≠ some (Complaint.missing kind).message := by
  intro worded
  -- A breach that misses something is worded in the same way, about something else.
  have named {text whole : String} (expected : "expected " ++ text = whole)
      (same : some whole = some ("expected " ++ kind.phrase)) : text = kind.phrase :=
    (String.append_right_inj _).mp (expected.trans (Option.some.inj same))
  have opens : ("expected " ++ kind.phrase).toList.head? = some 'e' :=
    head?_append (by decide +kernel) _
  cases breach with
  | missingDot => exact (phrase_ne kind).1 (named (by decide +kernel) worded).symm
  | missingCommandName => exact (phrase_ne kind).2 (named (by decide +kernel) worded).symm
  | overflow | underflow | splitCharacter | unplacedOperator | unplacedMarks => cases worded
  | _ =>
    have head := (congrArg (·.toList.head?) (Option.some.inj worded)).trans opens
    revert head
    decide +kernel

/-- No complaint but one is worded like a breach. -/
theorem ordinary_of_complaint {complaint : Complaint} (other : complaint ≠ .invalidCharacter)
    (found : Option Token) (pos : Position) : Ordinary (.syntaxFault complaint found pos) := by
  intro breach
  change breach.message? ≠ some complaint.message
  cases complaint with
  | missing kind => exact message_missing kind breach
  | missingEnd block => cases breach <;> cases block <;> decide +kernel
  | missingSeparator clause => cases breach <;> cases clause <;> decide +kernel
  | unterminatedLiteral close =>
    change breach.message? ≠ some "unterminated literal"
    cases breach <;> decide +kernel
  | invalidCharacter => exact absurd rfl other
  | invalidToken text =>
    have split : (Complaint.invalidToken text).message = "Invalid token: '" ++ (text ++ "'") :=
      String.append_assoc
    rw [split]
    exact ne_of_head? 'I' (by decide +kernel) (by decide) _ breach
  | _ => cases breach <;> decide +kernel

/-- No flaw is worded like a breach. -/
theorem ordinary_of_flaw (flaw : Flaw) (pos : Position) : Ordinary (.invalidTarget flaw pos) := by
  intro breach
  change breach.message? ≠ some flaw.message
  cases flaw with
  | wordNotAVariable text =>
    have split : (Flaw.wordNotAVariable text).message =
        "'" ++ (text ++ "' cannot receive a loaded variable") := String.append_assoc
    rw [split]
    exact ne_of_head? '\'' (by decide +kernel) (by decide) _ breach
  | _ => cases breach <;> decide +kernel

end Checked
end MatlabFront
