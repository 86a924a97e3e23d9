import DocMark.Command.Arguments
import DocMark.Command.Cli

/-!
The reader of arguments: which options there are, and what values they take.

A wrong argument ends the program with exit code 2, and asking for help ends it with 0.
-/

namespace DocMark.Command

def helpOption : OptionSpec := { long := "--help".toList, takesValue := false }

def sharedOptions : List OptionSpec :=
  [{ long := "--config".toList }, { long := "--log-level".toList }, { long := "--log-format".toList },
    helpOption]

def convertOptions : List OptionSpec :=
  [{ long := "--flavor".toList }, { long := "--level".toList },
    { long := "--output".toList, short := some 'o' }, helpOption]

def generateOptions : List OptionSpec :=
  [{ long := "--flavor".toList }, { long := "--level".toList }, { long := "--exclude".toList },
    helpOption]

def usageError {α : Type} : Run α := throw (.exit (.int 2))

/-- Go on with a value, or end the program because its arguments are wrong. -/
def orUsageError {α : Type} : Option α → Run α
  | some a => pure a
  | none => usageError

/-- Go on with a value, or end the program as a refused argument asks for. -/
def orRefuse {α : Type} : Except ArgumentError α → Run α
  | .ok a => pure a
  | .error .wrong => usageError
  | .error .nullInPath => throw (.crash .nullInPath)

/-- Take the arguments of a command apart. Asking for help ends the program. -/
def parseArguments (specs : List OptionSpec) (mixed : Bool) (args : List Text) : Run Parsed := do
  let parsed ← orUsageError (parse specs mixed args)
  if parsed.has "--help" then throw (.exit (.int 0))
  return parsed

def Name.ofText? (s : Text) : Option Name :=
  match String.ofList s with
  | "convert" => some .convert
  | "generate" => some .generate
  | "version" => some .version
  | _ => none

def flavorChoice : Check Text := choice flavorChoices true

/-- Read the arguments of a conversion: the options come first, then the file, and too many words are noticed
last. -/
def convertRequest (args : List Text) : Run ConvertRequest := do
  let parsed ← parseArguments convertOptions true args
  let s ← get
  let isFile := filePath s.files s.cwd
  orRefuse (checkInOrder [("--flavor", flavorChoice.only), ("--level", level.only),
    ("--output", isFile.only)] parsed)
  match parsed.words with
  | [] => usageError
  | file :: more =>
    let file ← orRefuse (isFile file)
    if !more.isEmpty then usageError
    return {
      file
      flavor := ← orRefuse (checked flavorChoice (parsed.last? "--flavor"))
      headingLevel := ← orRefuse (checked level (parsed.last? "--level"))
      output := parsed.last? "--output" }

/-- Read the arguments of a site, in the same order. -/
def generateRequest (args : List Text) : Run GenerateRequest := do
  let parsed ← parseArguments generateOptions true args
  let s ← get
  let isDir := dirPath s.files s.cwd
  orRefuse (checkInOrder [("--flavor", flavorChoice.only), ("--level", level.only)] parsed)
  match parsed.words with
  | [] => usageError
  | source :: rest =>
    let sourceDir ← orRefuse (isDir source)
    let targetDir ← orRefuse (checked isDir rest[1]?)
    if 2 < rest.length then usageError
    return {
      sourceDir
      extension := rest[0]?
      targetDir
      flavor := ← orRefuse (checked flavorChoice (parsed.last? "--flavor"))
      headingLevel := ← orRefuse (checked level (parsed.last? "--level"))
      excludes := parsed.all "--exclude" }

def logLevelChoice : Check Text := choice ["DEBUG", "INFO", "WARNING", "ERROR"] true

def logFormatChoice : Check Text := choice ["structured", "human"] false

def sharedRequest (args : List Text) : Run Invocation := do
  let parsed ← parseArguments sharedOptions false args
  let s ← get
  let config := match parsed.last? "--config" with
    | some file => some file
    | none => s.env.get? "DOC2MD_CONFIG_FILE"
  let isFile := filePath s.files s.cwd
  orRefuse (checkInOrder [("--config", isFile.only), ("--log-level", logLevelChoice.only),
    ("--log-format", logFormatChoice.only)] parsed)
  let config ← orRefuse (checked isFile config)
  let logLevel ← orRefuse (checked logLevelChoice (parsed.last? "--log-level"))
  let logFormat ← orRefuse (checked logFormatChoice (parsed.last? "--log-format"))
  match parsed.words with
  | [] => usageError
  | word :: args => return { config, logLevel, logFormat, name := ← orUsageError (Name.ofText? word), args }

def versionRequest (args : List Text) : Run Unit := do
  let parsed ← parseArguments [helpOption] true args
  if !parsed.words.isEmpty then usageError

def ArgumentReader.standard : ArgumentReader where
  shared := sharedRequest
  convert := convertRequest
  generate := generateRequest
  version := versionRequest

end DocMark.Command
