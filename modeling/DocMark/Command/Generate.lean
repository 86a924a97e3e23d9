import DocMark.Command.Convert
import DocMark.Site.Generate

/-!
The command that generates a site from a directory of sources.
-/

namespace DocMark.Command

structure GenerateRequest where
  sourceDir : Text
  extension : Option Text := none
  targetDir : Option Text := none
  flavor : Option Text := none
  headingLevel : Option Int := none
  excludes : List Text := []

def makeSite (request : Site.Request) : Run (Except Site.SiteError Site.Finished) := do
  let s ← get
  match Site.Plan.ofRequest s.files s.cwd request with
  | .error e => return .error e
  | .ok plan =>
    let (result, progress) := plan.generate.run.run ⟨s.files, []⟩
    set { s with files := progress.tree }
    Session.logEvents progress.events
    return result

def siteFailure (current sourceDir : Text) (destination : Path) : Site.SiteError → Envelope
  | .sourceNotFound _ => missing
  | .file ⟨.notFound, _⟩ => missing
  | .file ⟨.nullByte, _⟩ => invalid "embedded null byte".toList
  | .noSources _ extension =>
    Envelope.noMatches current ("*.".toList ++ extension) sourceDir
      (some "Check the extension argument and the --exclude options".toList)
  | .file e =>
    Envelope.internal current
      ("Could not write documentation to ".toList ++ destination.toText ++ ": ".toList ++ e.message) none
  | e => invalid e.message
where
  /-- The answer to a request that makes no sense. -/
  invalid (message : Text) : Envelope :=
    Envelope.validation current message none
      (some "Check the extension and flavor arguments".toList)
  /-- The answer when something on the way does not exist. -/
  missing : Envelope :=
    Envelope.notFound current "Source directory".toList sourceDir
      (some "Verify the source directory exists".toList)

def GenerateRequest.site (r : GenerateRequest) (c : Context) (source destination : Path) : Site.Request where
  source
  output := destination
  extension := c.extension r.extension
  flavor := c.flavor r.flavor
  headingLevel := c.headingLevel r.headingLevel
  excludes := c.excludes r.excludes

/-- Make the site that is asked for. A null character in the name of a home directory is a mistake of the request,
while a home directory that is not known is none. -/
def makeRequested (c : Context) (r : GenerateRequest) (destination : Path) :
    Run (Except Site.SiteError Site.Finished) := do
  let s ← get
  match (Path.ofText r.sourceDir).expandHome s.home s.users with
  | .ok source => makeSite (r.site c source destination)
  | .error .unknownUser => throw (.crash .noHome)
  | .error .nullInName => return .error .nullInPath

def answerSite (start : Float) (site : Site.Finished) : Run Unit := do
  Session.logCommand .info
    ("Generated ".toList ++ Text.ofNat site.pages.length ++ " pages".toList)
    [("command".toList, .ofString "generate"),
      ("output_dir".toList, .str site.plan.outputDir.toText)]
  Session.emitSuccess (.ofFields site.report)
    { warnings := site.warnings.map .str, telemetry := ← telemetry start }

def generation (c : Context) (r : GenerateRequest) : Run Unit := do
  let start := (← get).clock
  let destination ← expandHome (c.outputDir r.targetDir)
  match ← makeRequested c r destination with
  | .error e => Session.emitFailure (siteFailure (← get).context.id r.sourceDir destination e)
  | .ok site => answerSite start site

def generate (c : Context) (r : GenerateRequest) : Run Unit :=
  Session.asCommand "generate".toList (Session.exitOnInterrupt (generation c r))

end DocMark.Command
