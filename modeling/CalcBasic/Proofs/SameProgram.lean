import CalcBasic.Proofs.SilentEmission
import CalcBasic.Proofs.VariantReading

/-! What does not make another program: the case of words, and empty statements. -/
namespace CalcBasic
open Symbols (read)

/-- Tables that know the same of a program, whatever remarks were made on it. -/
structure Symbols.SameProgram (symbols other : Symbols) : Prop where
  uses (name : String) : other.uses name = symbols.uses name
  type (name : String) : other.type name = symbols.type name
  functions : other.functions = symbols.functions

theorem Symbols.sameProgram_noting (symbols : Symbols) (notes : List Diagnostic) :
    symbols.SameProgram (symbols.noting notes) := ⟨fun _ => rfl, fun _ => rfl, rfl⟩

/-! ### Empty statements -/

theorem respelling_id : Respelling id := ⟨fun _ => rfl, fun _ => rfl, fun _ => rfl, fun _ _ _ => rfl, fun _ _ => rfl⟩

theorem reports_id : Read.Reports id Eq := ⟨fun _ => rfl, fun _ _ _ _ => rfl⟩

/-- The same result, and tables that know the same. -/
structure SameReading (reading other : Except CompileError Tree × Symbols) : Prop where
  result : other.1 = reading.1
  table : reading.2.SameProgram other.2

theorem Read.Ends.same {reading other : Except CompileError Tree × Symbols} (ends : Ends Eq reading other) :
    SameReading reading other := by
  cases ends with
  | ok tree symbols notes => exact ⟨rfl, symbols.sameProgram_noting notes⟩
  | error same symbols notes => exact ⟨congrArg Except.error same.symm, symbols.sameProgram_noting notes⟩

theorem same_of_gaps (settings : Settings) (before after : List Token) {gap other : List Token} (first : IsGap gap)
    (second : IsGap other) :
    SameReading (read {} settings (before ++ (gap ++ after))) (read {} settings (before ++ (other ++ after))) := by
  have kept {gap : List Token} (isGap : IsGap gap) : gap.filter (·.tag != .whitespace) = gap := by
    refine List.filter_eq_self.mpr fun token member => ?_
    rw [beq_iff_eq.mp (isGap.all token member)]
    rfl
  have same (tokens : List Token) : Variant id tokens tokens := by
    have variant := Variant.of_map respelling_id.rewording tokens
    rwa [List.map_id] at variant
  refine Read.Ends.same (Read.alike_program respelling_id reports_id settings.dumpUnknown ?_ {} [])
  simp only [List.filter_append,kept first,kept second]
  exact (same _).append (.gap first second (same _))

/-- A second terminator beside a terminator changes nothing, wherever the two stand. -/
theorem empty_statements_invisible (settings : Settings) (before after : List Token) {terminator other : Token}
    (first : terminator.tag = .terminator) (second : other.tag = .terminator) :
    SameReading (read {} settings (before ++ terminator :: after))
        (read {} settings (before ++ terminator :: other :: after)) ∧
      SameReading (read {} settings (before ++ terminator :: after))
        (read {} settings (before ++ other :: terminator :: after)) := by
  have gap (tokens : List Token) (filled : tokens ≠ []) (all : tokens ⊆ [terminator, other]) : IsGap tokens := by
    refine ⟨filled, fun token member => ?_⟩
    have either := all member
    simp only [List.mem_cons,List.not_mem_nil,or_false] at either
    rcases either with rfl | rfl
    · exact beq_iff_eq.mpr first
    · exact beq_iff_eq.mpr second
  have single := gap [terminator] (by simp) (by simp)
  exact ⟨same_of_gaps settings before after single (gap [terminator, other] (by simp) (by simp)),
    same_of_gaps settings before after single (gap [other, terminator] (by simp) (by simp))⟩

/-- Two terminators between a condition and its body. -/
theorem empty_statements_invisible_before_body :
    let condition : List Token := [⟨.keyword, "if", 1⟩, ⟨.identifier, "x", 1⟩]
    let body : List Token := [⟨.identifier, "y", 2⟩, ⟨.assign, "=", 2⟩, ⟨.number, "1", 2⟩]
    let newline : Token := ⟨.terminator, "\n", 1⟩
    let stop : Token := ⟨.terminator, ";", 1⟩
    (newline.tag = .terminator ∧ stop.tag = .terminator) ∧
      SameReading (read {} {} (condition ++ newline :: body)) (read {} {} (condition ++ newline :: stop :: body)) ∧
      SameReading (read {} {} (condition ++ newline :: body)) (read {} {} (condition ++ stop :: newline :: body)) :=
  ⟨⟨rfl, rfl⟩, empty_statements_invisible {} [⟨.keyword, "if", 1⟩, ⟨.identifier, "x", 1⟩] _ rfl rfl⟩

/-! ### Case -/

/-- A token that differs at most in the case of its word. -/
structure Token.Respelled (token other : Token) : Prop where
  tag : other.tag = token.tag
  line : other.line = token.line
  text : other.text = token.text ∨
    (token.tag = .identifier ∨ token.tag = .keyword) ∧ other.text.toLower = token.text.toLower

/-- The token with its word in lower case. -/
def Token.lowered (token : Token) : Token :=
  if token.tag = .identifier ∨ token.tag = .keyword then { token with text := token.text.toLower } else token

theorem respelling_lowered : Respelling Token.lowered where
  tag token := by
    unfold Token.lowered
    split <;> rfl
  line token := by
    unfold Token.lowered
    split <;> rfl
  lower token := by
    unfold Token.lowered
    split
    · exact Text.toLower_toLower token.text
    · rfl
  verbatim token identifier keyword := if_neg (by simp [identifier,keyword])
  plain token lower := by
    unfold Token.lowered
    split
    · rw [lower]
    · rfl

/-- Errors of the same stage, at the same place. -/
def CompileError.SameKind (error other : CompileError) : Prop :=
  other.fault.stage = error.fault.stage ∧ other.line = error.line

theorem reports_lowered : Read.Reports Token.lowered CompileError.SameKind :=
  ⟨fun _ => ⟨rfl, rfl⟩, fun _ _ _ stage => ⟨stage _ _, rfl⟩⟩

theorem Token.Respelled.lowered_eq {token other : Token} (respelled : token.Respelled other) :
    other.lowered = token.lowered := by
  obtain ⟨tag,line,text⟩ := respelled
  obtain ⟨tag',text',line'⟩ := other
  obtain ⟨_,_,_⟩ := token
  dsimp only at tag line text
  subst tag line
  unfold lowered
  grind

/-- Both succeed with the same value, or both fail with errors of the same kind and line. -/
inductive SameOutcome {α : Type} : Except CompileError α → Except CompileError α → Prop
  | ok (value : α) : SameOutcome (.ok value) (.ok value)
  | error {error other : CompileError} (kind : error.SameKind other) : SameOutcome (.error error) (.error other)

theorem SameOutcome.refl {α : Type} (result : Except CompileError α) : SameOutcome result result := by
  cases result with
  | ok value => exact .ok value
  | error error => exact .error ⟨rfl, rfl⟩

theorem Read.Ends.join {first second common : Except CompileError Tree × Symbols}
    (left : Ends CompileError.SameKind first common) (right : Ends CompileError.SameKind second common) :
    Ends CompileError.SameKind first second := by
  have table {symbols other : Symbols} {notes notes' : List Diagnostic} (same : symbols.noting notes = other.noting notes') :
      other = symbols.noting other.diagnostics := by
    calc other = (other.noting notes').noting other.diagnostics := rfl
      _ = symbols.noting other.diagnostics := by rw [← same]; rfl
  cases left with
  | ok tree symbols notes =>
    generalize whole : (Except.ok tree, symbols.noting notes) = common at right
    cases right with
    | ok tree' other notes' =>
      obtain ⟨result,same⟩ := Prod.mk.inj whole
      cases result
      rw [table same]
      exact .ok tree symbols _
    | error => cases whole
  | error kind symbols notes =>
    generalize whole : (Except.error _, symbols.noting notes) = common at right
    cases right with
    | ok => cases whole
    | error kind' other notes' =>
      obtain ⟨result,same⟩ := Prod.mk.inj whole
      cases result
      rw [table same]
      exact .error ⟨kind'.1.symm.trans kind.1, kind'.2.symm.trans kind.2⟩ symbols _

theorem ends_of_respelled (settings : Settings) {tokens others : List Token}
    (respelled : List.Forall₂ Token.Respelled tokens others) :
    Read.Ends CompileError.SameKind (read {} settings tokens) (read {} settings others) := by
  have ends (tokens : List Token) : Read.Ends CompileError.SameKind (read {} settings tokens)
      (read {} settings (tokens.map Token.lowered)) := by
    refine Read.alike_program respelling_lowered reports_lowered settings.dumpUnknown ?_ {} []
    have solid : (fun token : Token => token.tag != .whitespace) ∘ Token.lowered = fun token => token.tag != .whitespace := by
      funext token
      rw [Function.comp_apply,respelling_lowered.tag]
    rw [List.filter_map,solid]
    exact .of_map respelling_lowered.rewording _
  have lower : others.map Token.lowered = tokens.map Token.lowered := by
    induction respelled with
    | nil => rfl
    | cons first _ ih => rw [List.map_cons,List.map_cons,first.lowered_eq,ih]
  have common := ends others
  rw [lower] at common
  exact (ends tokens).join common

/-- The case of words makes no difference to what is read, nor to the code. -/
theorem case_insensitive (settings : Settings) {tokens others : List Token}
    (respelled : List.Forall₂ Token.Respelled tokens others) :
    SameOutcome (read {} settings tokens).1 (read {} settings others).1 ∧
      (read {} settings tokens).2.SameProgram (read {} settings others).2 ∧
        SameOutcome (Compilation.ofTokens settings tokens).code (Compilation.ofTokens settings others).code := by
  have ends := ends_of_respelled settings respelled
  unfold Compilation.ofTokens
  generalize read {} settings tokens = reading at ends ⊢
  generalize read {} settings others = other at ends ⊢
  cases ends with
  | ok tree symbols notes =>
    refine ⟨.ok tree, symbols.sameProgram_noting notes, ?_⟩
    show SameOutcome (symbols.emit settings (Emit.program tree)).1 ((symbols.noting notes).emit settings (Emit.program tree)).1
    rw [symbols.emit_noting]
    exact .refl _
  | error kind symbols notes => exact ⟨.error kind, symbols.sameProgram_noting notes, .error kind⟩

/-- `IF X; Die(tRUE)` -/
def shouted : List Token :=
  [⟨.keyword, "IF", 1⟩, ⟨.identifier, "X", 1⟩, ⟨.terminator, ";", 1⟩, ⟨.keyword, "Die", 1⟩, ⟨.parenOpen, "(", 1⟩,
    ⟨.identifier, "tRUE", 1⟩, ⟨.parenClose, ")", 1⟩]

/-- The same in lower case. -/
def whispered : List Token :=
  [⟨.keyword, "if", 1⟩, ⟨.identifier, "x", 1⟩, ⟨.terminator, ";", 1⟩, ⟨.keyword, "die", 1⟩, ⟨.parenOpen, "(", 1⟩,
    ⟨.identifier, "true", 1⟩, ⟨.parenClose, ")", 1⟩]

theorem case_insensitive_shouted :
    List.Forall₂ Token.Respelled shouted whispered ∧
      SameOutcome (read {} {} shouted).1 (read {} {} whispered).1 ∧
        (read {} {} shouted).2.SameProgram (read {} {} whispered).2 ∧
          SameOutcome (Compilation.ofTokens {} shouted).code (Compilation.ofTokens {} whispered).code := by
  have same (token : Token) : token.Respelled token := ⟨rfl, rfl, .inl rfl⟩
  have respelled : List.Forall₂ Token.Respelled shouted whispered :=
    .cons ⟨rfl, rfl, .inr ⟨.inr rfl, by cbv⟩⟩ <| .cons ⟨rfl, rfl, .inr ⟨.inl rfl, by cbv⟩⟩ <| .cons (same _) <|
      .cons ⟨rfl, rfl, .inr ⟨.inr rfl, by cbv⟩⟩ <| .cons (same _) <| .cons ⟨rfl, rfl, .inr ⟨.inl rfl, by cbv⟩⟩ <|
        .cons (same _) .nil
  exact ⟨respelled, case_insensitive {} respelled⟩

end CalcBasic
