/-!
The edition of the language and the release of the engine.
-/

namespace CommandScript.Release

def edition : String := "PL2-BK"

def major : Nat := 0

def minor : Nat := 3

def patch : Nat := 0

/-- The name of the release. -/
def title : String := "BlueGiant"

/-- The three numbers with points between them. -/
def number : String :=
  toString major ++ "." ++ toString minor ++ "." ++ toString patch

def describe : String :=
  edition ++ " " ++ number ++ " (" ++ title ++ ")"

end CommandScript.Release
