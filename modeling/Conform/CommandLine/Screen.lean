import Conform.Text.Blank

/-!
What a person reads: lines with a mark of success or failure, indented items, and tables. Marks are
colored only where colors are shown and not unwanted.
-/
namespace Conform.CommandLine

structure Screen where
  colored : Bool

namespace Screen

/-- A screen with colors if it is a terminal and nothing speaks against them: neither a switch nor a
setting, which does by not being empty. -/
def ofTerminal (terminal unwanted : Bool) (setting : Text) : Screen :=
  ⟨terminal && !unwanted && setting.isEmpty⟩

def escape : Text := "\x1b["

def colorReset : Text := escape ++ "0m"

/-- A mark, in a color given by its number. -/
def mark (s : Screen) (tag : Text) (color : Nat) : Text :=
  if s.colored then escape ++ Text.ofNat color ++ "m" ++ tag ++ colorReset else tag

/-- A line that tells of a success. -/
def ok (s : Screen) (label : Text) : Text := s.mark "OK   " 32 ++ " " ++ label ++ "\n"

/-- A line that tells of a failure. -/
def fail (s : Screen) (label : Text) : Text := s.mark "FAIL " 31 ++ " " ++ label ++ "\n"

def items (entries : List Text) : Text := entries.flatMap fun e => "    - " ++ e ++ "\n"

/-- The widths of columns: those of the heads, or of the widest cells. -/
def widths (heads : List Text) (rows : List (List Text)) : List Nat :=
  rows.foldl (fun ws row => ws.zipIdx.map fun (w, i) => max w (row.getD i []).length)
    (heads.map List.length)

/-- The cells of a row in their columns; missing ones are blank, and what is too many is left out. -/
def row (widths : List Nat) (cells : List Text) : Text :=
  Text.stripEnd (Text.join "  " (widths.zipIdx.map fun (w, i) => (cells.getD i []).padRight w))
    ++ "\n"

/-- A table with heads, of which nothing is shown if there are no rows. -/
def table (heads : List Text) (rows : List (List Text)) : Text :=
  if rows.isEmpty then []
  else
    let ws := widths heads rows
    row ws heads ++ Text.join "  " (ws.map fun w => Text.repeatChar w '-') ++ "\n"
      ++ rows.flatMap (row ws)

end Screen
end Conform.CommandLine
