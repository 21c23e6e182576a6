/-!
# Log lines

What the tool reports about its progress when asked to. Lines are data; only the command line
prints them.
-/

namespace ClientForge

/-- A line of the log with the name of the stage that wrote it. -/
structure LogLine where
  source : String
  text : String
deriving DecidableEq, Repr

/-- A line as it is printed. -/
def LogLine.render (line : LogLine) : String :=
  "DEBUG " ++ line.source ++ ": " ++ line.text ++ "\n"

end ClientForge
