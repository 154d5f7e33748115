import CalcBasic.Proofs.Rewording

/-! Words in another spelling. What a token list stands for is found from the tags of
its tokens and from words compared in lower case, so respelling its words respells the
parts that are found and changes nothing else. -/
namespace CalcBasic

/-- Writes words in another case and leaves all else alone. Words in lower case are
left alone as well. -/
structure Respelling (spell : Token → Token) : Prop where
  tag (token : Token) : (spell token).tag = token.tag
  line (token : Token) : (spell token).line = token.line
  lower (token : Token) : (spell token).text.toLower = token.text.toLower
  verbatim (token : Token) : token.tag ≠ .identifier → token.tag ≠ .keyword → spell token = token
  plain (token : Token) : token.text.toLower = token.text → spell token = token

theorem Respelling.rewording {spell : Token → Token} (respelling : Respelling spell) : Rewording spell where
  tag := respelling.tag
  lower := respelling.lower
  text token identifier keyword := by rw [respelling.verbatim token identifier keyword]

/-! ### Reading expressions -/
namespace Read
open CalcBasic.Action

/-- Errors that may stand for each other: every error for itself, and one that quotes a
token for the one that quotes it in the other spelling. -/
structure Reports (spell : Token → Token) (errors : CompileError → CompileError → Prop) : Prop where
  same (error : CompileError) : errors error error
  quoted (fault : String → Fault) (token : Token) (line : Nat) (stage : ∀ text other, (fault text).stage = (fault other).stage) :
    errors ⟨fault token.text, some line⟩ ⟨fault (spell token).text, some line⟩

variable {spell : Token → Token} {errors : CompileError → CompileError → Prop} (respelling : Respelling spell)
  (reports : Reports spell errors) (markUnknown : Bool)

include reports in
theorem alike_fail {α : Type} (fault : Fault) (line : Nat) : Alike errors (fail fault line : Read α) (fail fault line) :=
  alike_throw (reports.same _)

include reports in
theorem alike_number (token : Token) : Alike errors (number token) (number token) := by
  unfold number
  split
  · exact alike_pure _
  · exact alike_fail reports _ _

end Read
end CalcBasic
