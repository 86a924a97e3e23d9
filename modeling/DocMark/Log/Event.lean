import DocMark.Text.Basic

/-!
Log events: what the parts of the program have to say while they work.

An event has a level, the channel that it comes from and a message. Whether and how it is written is
decided where the log is kept.
-/

namespace DocMark

abbrev Level := Int

namespace Level

def debug : Level := 10
def info : Level := 20
def warning : Level := 30
def error : Level := 40
def critical : Level := 50

/-- The name of a level; a level between the named ones is called by its number. -/
def name (l : Level) : Text :=
  if l = 0 then "NOTSET".toList
  else if l = debug then "DEBUG".toList
  else if l = info then "INFO".toList
  else if l = warning then "WARNING".toList
  else if l = error then "ERROR".toList
  else if l = critical then "CRITICAL".toList
  else "Level ".toList ++ Text.ofInt l

/-- The levels by their names; some have two. -/
def numbers : List (String × Level) :=
  [("CRITICAL", critical), ("FATAL", critical), ("ERROR", error), ("WARN", warning),
    ("WARNING", warning), ("INFO", info), ("DEBUG", debug), ("NOTSET", 0)]

end Level

inductive Channel where
  | scanner
  | flavors
  | rendering
  | generation
  | settings
deriving DecidableEq, Repr

namespace Channel

/-- The name that all channels stand under. -/
def root : Text := "doc2md".toList

def name : Channel → Text
  | .scanner => "doc2md.core.scanner".toList
  | .flavors => "doc2md.core.flavors".toList
  | .rendering => "doc2md.core.rendering".toList
  | .generation => "doc2md.core.docgen".toList
  | .settings => "doc2md.config".toList

end Channel

structure Event where
  level : Level
  channel : Channel
  message : Text
deriving DecidableEq, Repr

end DocMark
