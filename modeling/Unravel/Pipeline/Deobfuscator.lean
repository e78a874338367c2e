import Unravel.Pass.Concatenation
import Unravel.Pass.Folding
import Unravel.Pass.Inlining.Calls
import Unravel.Pass.Member
import Unravel.Pass.Renaming
import Unravel.Pass.Strings.Recovery
import Unravel.Pipeline.Run

/-!
Contract: from program text to program text.

A deobfuscator reads a program once, runs its passes over the tree and prints
it once. The standard one has five passes, and the renaming pass when the
options map any names.
-/

namespace Unravel

/-- Visits a walk may make before it is cut off. -/
def stepLimit : Nat := 1000000000

inductive RunFault where
  | unreadable (message : String)
  | halted (halt : Halt)
  | unprintable (message : String)

structure Deobfuscator where
  options : Options
  registry : Registry

namespace Deobfuscator

def new (options : Options) : Deobfuscator :=
  ⟨Options.merge [options], []⟩

def register (deobfuscator : Deobfuscator) (plugin : Plugin) (order : Int) : Deobfuscator :=
  { deobfuscator with registry := deobfuscator.registry.register plugin order }

def add (deobfuscator : Deobfuscator) (plugin : Plugin) : Deobfuscator :=
  { deobfuscator with registry := deobfuscator.registry.add plugin }

def passNames (deobfuscator : Deobfuscator) : List String :=
  deobfuscator.registry.passNames

/-- The context of a document that no pass has seen. -/
def context (deobfuscator : Deobfuscator) (source : String) (document : Document) : Context :=
  ⟨source, document, deobfuscator.options, { Report.empty with inputLength := source.length },
    [], [], ""⟩

/-- Prints the document of a run whose passes have succeeded. -/
def finish (tools : Toolkit) (context : Context) : Except String Context := do
  let beautified := (Options.setting context.options "beautify").truthy
  let output ← tools.print beautified context.document.tree
  return { context with
    output := output
    report := { context.report with outputLength := output.length } }

/-- Runs over a program text, with passes to skip and passes to run only. The
second component is the log. -/
def run (deobfuscator : Deobfuscator) (tools : Toolkit) (limit : Nat) (source : String)
    (skip only : List (Option String)) : Except RunFault Context × List LogRecord :=
  match tools.read source with
  | .error message => (.error (.unreadable message), [])
  | .ok document =>
    let context := deobfuscator.context source document
    let (result, remarks) := deobfuscator.registry.run limit context skip only
    let log := remarks.map (Remark.record tools.describe)
    match result with
    | .error halt => (.error (.halted halt), log)
    | .ok context =>
      match finish tools context with
      | .error message => (.error (.unprintable message), log)
      | .ok context =>
        (.ok context,
          log ++ [⟨pipelineLogger, .debug,
            "pipeline finished with " ++ toString context.report.totalChanges ++
              " change(s)"⟩])

def deobfuscate (deobfuscator : Deobfuscator) (tools : Toolkit) (limit : Nat) (source : String) :
    Except RunFault String :=
  (deobfuscator.run tools limit source [] []).1.map Context.output

def standard (options : Options) : Deobfuscator :=
  let base := (((((new options).register Pass.Strings.plugin 10).register
    Pass.Inlining.plugin 20).register Pass.Concatenation.plugin 30).register
    Pass.Member.plugin 40).register Pass.Folding.plugin 50
  if (Options.setting base.options "rename_map").truthy then
    base.register Pass.Renaming.plugin 60
  else base

end Deobfuscator

end Unravel
