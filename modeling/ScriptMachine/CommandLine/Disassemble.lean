import ScriptMachine.CommandLine

set_option autoImplicit false

/- The command line of the lister: it compiles one file and prints its bytecode. -/
namespace ScriptMachine.CommandLine

/-- A run of the lister. `readFile` gives what a file holds, if it can be read. -/
def disassemble (arguments : List Text) (readFile : Text → Option Text) : Answer :=
  match arguments with
  | [path] =>
    match readFile path with
    | none =>
      { exit := 2, stderr := ascii "Failed to read input file: " ++ path ++ [Text.newline] }
    | some source =>
      match Compiler.compileSource (.empty {}) {} [] source with
      | (heap, .ok compiled) =>
        let script := (heap.prototype? compiled.script).getD {}
        { exit := 0
          stdout := Listing.render (.ofStructs heap compiled.registry []) script }
      | (_, .error (.diagnostics found)) =>
        { exit := exitCompileError, stderr := Diagnostic.renderAll found ++ [Text.newline] }
      | (_, .error _) => { exit := exitCompileError }
  | _ => { exit := 1, stderr := ascii "Usage: dynadis <input.dyna>\n" }

end ScriptMachine.CommandLine
