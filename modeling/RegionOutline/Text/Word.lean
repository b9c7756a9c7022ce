/-! # Leading words

Taking a fixed word off the front of a text, exactly or ignoring the case of
ASCII letters. -/

namespace RegionOutline.Text

/-- The rest of the text after the word, if the text starts with it. -/
def stripStart? : List Char → List Char → Option (List Char)
  | [], text => some text
  | _ :: _, [] => none
  | c :: word, d :: text => if c = d then stripStart? word text else none

/-- Whether the text starts with the word when ASCII letters of either case are
identified. -/
def startsIgnoringCase : List Char → List Char → Bool
  | [], _ => true
  | _ :: _, [] => false
  | c :: word, d :: text => c.toLower == d.toLower && startsIgnoringCase word text

/-- Whether two texts agree when ASCII letters of either case are identified. -/
def equalIgnoringCase (a b : String) : Bool :=
  a.toList.map Char.toLower == b.toList.map Char.toLower

/-- Stripping succeeds exactly on the texts that continue the word. -/
theorem stripStart?_eq_some_iff {word text rest : List Char} :
    stripStart? word text = some rest ↔ text = word ++ rest := by
  induction word generalizing text with
  | nil => simp [stripStart?]
  | cons c word ih =>
      cases text with
      | nil => simp [stripStart?]
      | cons d text =>
          by_cases h : c = d
          · subst h; simp [stripStart?, ih]
          · simp [stripStart?, h, Ne.symm h]

end RegionOutline.Text
