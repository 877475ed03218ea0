/-!
# Columns

Text brought to the width of a column.  Text that is wider already is left as it is, so the result
is as wide as the column or the text, whichever is wider.
-/

namespace Lox.Text

/-- As many `fill` as bring `text` to the width of a column. -/
def filling (fill : Char) (width : Nat) (text : String) : String :=
  String.ofList (List.replicate (width - text.length) fill)

/-- `text` at the right of a column. -/
def alignRight (fill : Char) (width : Nat) (text : String) : String :=
  filling fill width text ++ text

/-- `text` at the left of a column. -/
def alignLeft (width : Nat) (text : String) : String :=
  text ++ filling ' ' width text

@[simp] theorem length_filling (fill : Char) (width : Nat) (text : String) :
    (filling fill width text).length = width - text.length := by
  simp [filling]

theorem length_alignRight (fill : Char) (width : Nat) (text : String) :
    (alignRight fill width text).length = max width text.length := by
  simp only [alignRight, String.length_append, length_filling]
  omega

theorem length_alignLeft (width : Nat) (text : String) :
    (alignLeft width text).length = max width text.length := by
  simp only [alignLeft, String.length_append, length_filling]
  omega

end Lox.Text
