import CalcBasic.Proofs.LoweredCalls
import CalcBasic.Proofs.PlacedReading
import CalcBasic.Proofs.ScannedTokens
import CalcBasic.Proofs.Stages

/-! The lines that compilations report. Remarks and errors are on lines of tokens, except for
errors in what the program does not write itself: the counters of loops over lists, and the
calls that complements, membership and such loops stand for. Those are on line 0. -/
namespace CalcBasic

/-- A node of the program, or of the body of one of its functions. -/
def IsNode (table : FunctionTable) (tree node : Tree) : Prop :=
  node ∈ tree :: tree.descendants ∨ ∃ f ∈ table.users, ∃ body ∈ f.body, node ∈ body :: body.descendants

/-- The faults of a program that are on none of its lines. -/
inductive Unplaced (table : FunctionTable) (tree : Tree) : Fault → Prop
  | counter {counter collection body : Tree} (inside : IsNode table tree (.forEach counter collection body))
      (listed : collection.isCounted = false) (fixed : counter.isAssignable = false) : Unplaced table tree .notAssignable
  | call {name : String} {f : UserFunction} {fault : Fault} (unwritten : name ∈ unwrittenCalls)
      (defined : table.find? name = some (.user f)) (failed : CallFault table name 1 fault) : Unplaced table tree fault

/-- Calls that are not written are calls of builtins, which take one argument. -/
theorem isWritten_unwrittenCalls {name : String} (unwritten : name ∈ unwrittenCalls) : ∃ target, Emit.IsWritten name target 1 := by
  simp only [unwrittenCalls,List.mem_cons,List.not_mem_nil,or_false] at unwritten
  rcases unwritten with rfl | rfl | rfl
  · exact ⟨"not", Emit.isWritten_not⟩
  · exact ⟨"sum", Emit.isWritten_sum⟩
  · exact ⟨"dim", Emit.isWritten_dim⟩

/-- A call that is not written fails only in a function of the program. -/
theorem user_of_unwritten {table : FunctionTable} {name : String} {fault : Fault} (unwritten : name ∈ unwrittenCalls)
    (failed : CallFault table name 1 fault) : ∃ f, table.find? name = some (.user f) := by
  obtain ⟨_,f,isBuiltin,_,_,_,accepted⟩ := isWritten_unwrittenCalls unwritten
  cases failed with
  | unknown absent =>
    unfold FunctionTable.find? at absent
    rw [isBuiltin] at absent
    cases own : table.user? name with
    | none =>
      rw [own] at absent
      cases absent
    | some g =>
      rw [own] at absent
      cases absent
  | builtinCount found whole refused =>
    rw [FunctionTable.builtin_of_find? found] at isBuiltin
    cases isBuiltin
    rw [accepted] at refused
    cases refused
  | userCount found refused => exact ⟨_, found⟩
  | itself found inline => exact ⟨_, found⟩
  | bodiless found inline absent => exact ⟨_, found⟩

section Lines

variable {lines : Nat → Prop} {table : FunctionTable} {tree : Tree}

/-- What the nodes of a program have in common: their lines, and that its loops are its own. -/
def Tree.IsReported (lines : Nat → Prop) (table : FunctionTable) (tree node : Tree) : Prop :=
  node.OnLine lines ∧ (node.kind = .forEach → IsNode table tree node)

theorem Tree.Lined.isReported {part : Tree} (lined : part.Lined lines)
    (inside : ∀ node ∈ part :: part.descendants, IsNode table tree node) : part.Throughout (IsReported lines table tree) :=
  fun node member => ⟨lined node member, fun _ => inside node member⟩

/-- Rendering a program ends with errors on its lines, or with faults that are on none. -/
theorem guide_lines (bodies : ∀ f ∈ table.users, ∀ body ∈ f.body, body.Lined lines) :
    Guide (Tree.IsReported lines table tree) (fun _ => True) table Eq
      fun error => ∀ line ∈ error.line, lines line ∨ line = 0 ∧ Unplaced table tree error.fault where
  likeness := likeness_eq fun _ => ⟨trivial, nofun⟩
  plain node isPlain := by
    cases node with
    | var | call | membership | assign | forEach | function => cases isPlain
    | _ => exact ⟨trivial, nofun⟩
  placeless _ _ := nofun
  found _ same := by rw [same]
  faults := by
    rintro name arguments line fault ⟨place,-⟩ failed _ ⟨⟩
    rcases place with placed | ⟨unplaced,unwritten,single⟩
    · exact .inl placed
    · rw [single] at failed
      obtain ⟨f,defined⟩ := user_of_unwritten unwritten failed
      exact .inr ⟨unplaced, .call unwritten defined failed⟩
  helpers := by
    rintro name arguments line f expansion ⟨place,-⟩ found expands helper - more
    refine ⟨?_, nofun⟩
    rcases place with placed | ⟨-,unwritten,-⟩
    · exact .inl placed
    · obtain ⟨_,g,isBuiltin,_,_,whole,_⟩ := isWritten_unwrittenCalls unwritten
      rw [FunctionTable.builtin_of_find? found] at isBuiltin
      cases isBuiltin
      rw [whole] at expands
      cases expands
  params _ _ _ _ _ := ⟨⟨trivial, nofun⟩, trivial⟩
  bodies := by
    intro name arguments line f body _ found _ isBody
    have isUser := FunctionTable.mem_users found
    exact Tree.Lined.isReported (bodies f isUser body isBody) fun node member => .inr ⟨f, isUser, body, isBody, member⟩
  selects _ _ _ := ⟨trivial, nofun⟩
  sums _ _ := ⟨.inr ⟨rfl, by simp [unwrittenCalls], rfl⟩, nofun⟩
  lengths _ _ _ := ⟨.inr ⟨rfl, by simp [unwrittenCalls], rfl⟩, nofun⟩
  counters := by
    rintro counter collection body ⟨-,inside⟩ listed fixed _ ⟨⟩
    exact .inr ⟨rfl, .counter (inside rfl) listed fixed⟩
  retyped _ _ := ⟨Tree.isTarget_of_forall (fun _ => trivial) _, Tree.isTarget_of_forall (fun _ => trivial) _⟩
  assigned _ := Tree.isTarget_of_forall (fun _ => trivial) _
  targets := by
    rintro target mode value line ⟨placed,-⟩ _ _ ⟨⟩
    exact .inl placed
  sections _ same := by rw [same]
  loads _ := ⟨⟨trivial, nofun⟩, fun _ _ => ⟨trivial, nofun⟩⟩

end Lines

/-! ### Compilations -/

theorem Emit.Edits.mem_diagnostics {before after : Symbols} (edits : Emit.Edits before after) {diagnostic : Diagnostic}
    (member : diagnostic ∈ after.diagnostics) : diagnostic ∈ before.diagnostics ∨ diagnostic.line = none := by
  induction edits with
  | refl => exact .inl member
  | tail _ last ih =>
    cases last with
    | temporary =>
      unfold Symbols.temporary Symbols.reference at member
      dsimp only at member
      split at member <;> exact ih member
    | textName =>
      unfold Symbols.textName at member
      dsimp only at member
      split at member <;> exact ih member
    | setType | slot | listName => exact ih member
    | remark =>
      rcases List.mem_append.mp member with earlier | new
      · exact ih earlier
      · rw [List.mem_singleton.mp new]
        exact .inr rfl

namespace Compilation

variable (settings : Settings) (source : String)

/-- A line on which the program has a token. -/
def HasLine (line : Nat) : Prop := ∃ token ∈ Token.scan settings.lex.preserve source, token.line = line

theorem placed_afterReading : Read.Placed (HasLine settings source) (ofSource settings source).afterReading ∧
    (∀ tree, (ofSource settings source).tree = .ok tree → tree.Lined (HasLine settings source)) ∧
    ∀ error, (ofSource settings source).tree = .error error → ∀ line ∈ error.line, HasLine settings source line := by
  have tokens : OnLines (HasLine settings source) (Token.scan settings.lex.preserve source) :=
    fun token member => ⟨token, member, rfl⟩
  have read := Read.places_program settings.dumpUnknown tokens {} ⟨nofun, nofun⟩
  rwa [← reading_eq] at read

/-- An error is on a line of the program, unless it is one of the faults that are on none. -/
theorem line_of_error {error : CompileError} (failed : (ofSource settings source).code = .error error) {line : Nat}
    (reported : error.line = some line) : HasLine settings source line ∨ line = 0 ∧
      ∃ tree, (ofSource settings source).tree = .ok tree ∧
        Unplaced (ofSource settings source).afterReading.functions tree error.fault := by
  obtain ⟨placed,lined,misread⟩ := placed_afterReading settings source
  rw [code_eq] at failed
  cases read : (ofSource settings source).tree with
  | error refusal =>
    rw [read] at failed
    cases failed
    exact .inl (misread error read line reported)
  | ok tree =>
    rw [read] at failed
    let start : Emitter :=
      { symbols := (ofSource settings source).afterReading, modern := settings.modern, folding := settings.simplify,
        program := settings.programName }
    have reportedNodes := Tree.Lined.isReported (lined tree read) fun node member =>
      (.inl member : IsNode start.symbols.functions tree node)
    have tracked := Emit.tracks_program (guide_lines placed.bodies) (by simp) ⟨trivial, nofun⟩ reportedNodes start start ⟨rfl, rfl⟩ rfl
    exact (tracked.error error failed line reported).imp_right fun ⟨zero,unplaced⟩ => ⟨zero, tree, rfl, unplaced⟩

end Compilation

/-- The lines of a program begin at 1. Remarks are on lines of its tokens, and so are errors, but
for faults in what the program does not write itself, which are on line 0. -/
theorem reported_lines (settings : Settings) (source : String) :
    (∀ token ∈ Token.scan settings.lex.preserve source, 0 < token.line) ∧
    (∀ error line, compile settings source = .error error → error.line = some line →
      (∃ token ∈ Token.scan settings.lex.preserve source, token.line = line) ∨
      line = 0 ∧ ∃ tree, (Compilation.ofSource settings source).tree = .ok tree ∧
        Unplaced (Compilation.ofSource settings source).afterReading.functions tree error.fault) ∧
    ∀ compiled, compile settings source = .ok compiled → ∀ diagnostic ∈ compiled.diagnostics, ∀ line ∈ diagnostic.line,
      ∃ token ∈ Token.scan settings.lex.preserve source, token.line = line := by
  refine ⟨fun token => Token.line_pos_of_mem_scan, fun error line failed reported => ?_, ?_⟩
  · exact Compilation.line_of_error settings source (Compilation.code_of_error settings source failed) reported
  · intro compiled done diagnostic member line isLine
    rw [Compilation.diagnostics_of_ok settings source done] at member
    rcases (Compilation.edits_symbols settings source).mem_diagnostics member with read | placeless
    · exact (Compilation.placed_afterReading settings source).1.remarks diagnostic read line isLine
    · rw [placeless] at isLine
      cases isLine

theorem reported_lines_of_target :
    compile {} "x = 1;\n2 = x;" = .error ⟨.notAssignable, some 2⟩ ∧
      ∃ token ∈ Token.scan false "x = 1;\n2 = x;", token.line = 2 := by
  have refused : (Compilation.ofSource {} "x = 1;\n2 = x;").code = .error ⟨.notAssignable, some 2⟩ := by decide +kernel
  have failed : compile {} "x = 1;\n2 = x;" = .error ⟨.notAssignable, some 2⟩ := congrArg (Except.map _) refused
  refine ⟨failed, ?_⟩
  rcases (reported_lines {} "x = 1;\n2 = x;").2.1 _ 2 failed rfl with found | ⟨zero,_⟩
  · exact found
  · cases zero

/-- A loop over a list that counts with a number is refused on line 0. -/
theorem counter_reported_on_no_line :
    compile {} "for 1 in xs \x7b print 1 \x7d" = .error ⟨.notAssignable, some 0⟩ ∧
      ∀ token ∈ Token.scan false "for 1 in xs \x7b print 1 \x7d", token.line = 1 := by
  have refused : (Compilation.ofSource {} "for 1 in xs \x7b print 1 \x7d").code = .error ⟨.notAssignable, some 0⟩ := by
    decide +kernel
  exact ⟨congrArg (Except.map _) refused, by decide +kernel⟩

end CalcBasic
