import CalcBasic.Proofs.Session

/-! The stages of a compilation. Reading starts from an empty table, and emission goes on from
the table that reading leaves behind. -/
namespace CalcBasic.Compilation
open CalcBasic.Action

variable (settings : Settings) (source : String)

theorem reading_eq : ((ofSource settings source).tree, (ofSource settings source).afterReading) =
    outcome (Read.program settings.dumpUnknown (Token.scan settings.lex.preserve source)) {} := by
  unfold ofSource ofTokens
  dsimp only
  split <;> rfl

theorem code_eq : (ofSource settings source).code = (ofSource settings source).tree.bind fun tree =>
    ((ofSource settings source).afterReading.emit settings (Emit.program tree)).1 := by
  unfold ofSource ofTokens
  dsimp only
  split
  · rename_i failed
    dsimp only
    rw [failed]
    rfl
  · rename_i done
    dsimp only
    rw [done]
    rfl

theorem afterReading_grows : Symbols.Grows {} (ofSource settings source).afterReading := by
  have read := Read.keeps_program settings.dumpUnknown (Token.scan settings.lex.preserve source) {}
  rw [← reading_eq] at read
  exact (Symbols.extends_of_read _ _ read).grows

theorem edits_symbols : Emit.Edits (ofSource settings source).afterReading (ofSource settings source).symbols := by
  unfold ofSource ofTokens
  dsimp only
  split
  · exact .refl
  · rename_i program _
    let start : Emitter :=
      { symbols := (Symbols.read {} settings (Token.scan settings.lex.preserve source)).2, modern := settings.modern,
        folding := settings.simplify, program := settings.programName }
    exact (Emit.keeps_program program start).symbols

theorem code_of_error {error : CompileError} (failed : compile settings source = .error error) :
    (ofSource settings source).code = .error error := by
  cases code : (ofSource settings source).code with
  | error refusal =>
    simp only [compile,code] at failed
    cases failed
    rfl
  | ok text =>
    simp only [compile,code] at failed
    cases failed

theorem diagnostics_of_ok {compiled : Compiled} (done : compile settings source = .ok compiled) :
    compiled.diagnostics = (ofSource settings source).symbols.diagnostics := by
  cases code : (ofSource settings source).code with
  | error refusal =>
    simp only [compile,code] at done
    cases done
  | ok text =>
    simp only [compile,code] at done
    cases done
    rfl

end CalcBasic.Compilation
