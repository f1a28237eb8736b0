/-! # Escaped markup

Five characters of a text are replaced by entities before it enters markup. The text is cut
into pieces, so that a writer is called once for each entity and once for each run between. -/
namespace Stencil.Text

def entity? (c : Char) : Option String :=
  if c = '"' then some "&quot;"
  else if c = '\'' then some "&apos;"
  else if c = '&' then some "&amp;"
  else if c = '<' then some "&lt;"
  else if c = '>' then some "&gt;"
  else none

/-- What is left of a run of plain characters, collected in reverse. -/
def flush (run : List Char) (pieces : List String) : List String :=
  if run = [] then pieces else String.ofList run.reverse :: pieces

def piecesAfter (run : List Char) : List Char → List String
  | [] => flush run []
  | c :: rest => match entity? c with
    | some e => flush run (e :: piecesAfter [] rest)
    | none => piecesAfter (c :: run) rest

/-- The runs and entities of an escaped text, none of them empty. -/
def escapePieces (s : String) : List String := piecesAfter [] s.toList

def escape (s : String) : String := String.join (escapePieces s)

def escapeChar (c : Char) : List Char := ((entity? c).map String.toList).getD [c]

private theorem join_flush (run : List Char) (pieces : List String) :
    (String.join (flush run pieces)).toList = run.reverse ++ (String.join pieces).toList := by
  unfold flush
  by_cases h : run = []
  · simp [h]
  · rw [if_neg h, String.join_cons, String.toList_append, String.toList_ofList]

private theorem join_piecesAfter (run rest : List Char) :
    (String.join (piecesAfter run rest)).toList = run.reverse ++ rest.flatMap escapeChar := by
  induction rest generalizing run with
  | nil => rw [piecesAfter, join_flush, String.join_nil, String.toList_empty, List.flatMap_nil]
  | cons c rest ih =>
    rw [piecesAfter, List.flatMap_cons, escapeChar]
    cases entity? c with
    | none => rw [ih, List.reverse_cons, List.append_assoc]; rfl
    | some e => rw [join_flush, String.join_cons, String.toList_append, ih]; rfl

/-- The pieces of an escaped text are the replaced characters one after another. -/
theorem toList_escape (s : String) : (escape s).toList = s.toList.flatMap escapeChar :=
  join_piecesAfter [] s.toList

end Stencil.Text
