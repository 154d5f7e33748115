import CalcBasic.Emit.Program
import CalcBasic.Reader.Statement
import CalcBasic.Settings
import CalcBasic.Token.Lexeme

/-! Whole compilations. Each starts from an empty symbol table. -/
namespace CalcBasic

/-- Reads a program on top of a symbol table. -/
def Symbols.read (symbols : Symbols) (settings : Settings) (tokens : List Token) :
    Except CompileError Tree × Symbols :=
  (Read.program settings.dumpUnknown tokens).run.run symbols

/-- Emits code on top of a symbol table. -/
def Symbols.emit {α : Type} (symbols : Symbols) (settings : Settings) (action : Emit α) :
    Except CompileError α × Symbols :=
  let (result, emitter) := action.run.run
    { symbols, modern := settings.modern, folding := settings.simplify,
      program := settings.programName }
  (result, emitter.symbols)

/-- One compilation, stage by stage. -/
structure Compilation where
  tree : Except CompileError Tree
  /-- The symbol table after reading. -/
  afterReading : Symbols
  code : Except CompileError String
  /-- The symbol table at the end. -/
  symbols : Symbols

namespace Compilation

def ofTokens (settings : Settings) (tokens : List Token) : Compilation :=
  let (tree, afterReading) := Symbols.read {} settings tokens
  match tree with
  | .error error => { tree, afterReading, code := .error error, symbols := afterReading }
  | .ok program =>
    let (code, symbols) := afterReading.emit settings (Emit.program program)
    { tree, afterReading, code, symbols }

def ofSource (settings : Settings) (source : String) : Compilation :=
  ofTokens settings (Token.scan settings.lex.preserve source)

end Compilation

/-- Code and the remarks made on the way to it. -/
structure Compiled where
  code : String
  diagnostics : List Diagnostic

def compile (settings : Settings) (source : String) : Except CompileError Compiled :=
  let compilation := Compilation.ofSource settings source
  compilation.code.map fun code => ⟨code, compilation.symbols.diagnostics⟩

end CalcBasic
