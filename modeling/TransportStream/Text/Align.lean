/-!
# Alignment in a column

A text set in a column of a given width is filled up with spaces, and is never cut when it is
longer than the column.
-/

namespace TransportStream.Text

/-- The text at the left of a column `width` characters wide. -/
def alignLeft (width : Nat) (text : String) : String :=
  text ++ String.ofList (List.replicate (width - text.length) ' ')

/-- The text at the right of a column `width` characters wide. -/
def alignRight (width : Nat) (text : String) : String :=
  String.ofList (List.replicate (width - text.length) ' ') ++ text

end TransportStream.Text
