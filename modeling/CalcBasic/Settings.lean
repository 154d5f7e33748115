/-! Settings of one compilation. -/
namespace CalcBasic

structure LexSettings where
  /-- Keeps blanks as tokens. -/
  preserve : Bool := false
  /-- Reserved. -/
  exact : Bool := true
  deriving DecidableEq, Repr

/-- The only dialect of calculator code so far. -/
inductive Dialect where
  | basic
  deriving DecidableEq, Repr

structure Settings where
  lex : LexSettings := {}
  /-- The calculator has a function for remainders. -/
  modern : Bool := true
  /-- Constant operations are replaced by their value. -/
  simplify : Bool := true
  target : Dialect := .basic
  /-- What is no expression is marked in the code, not dropped. -/
  dumpUnknown : Bool := false
  /-- Name under which the program calls itself. -/
  programName : String := "TIADV"
  deriving DecidableEq, Repr

end CalcBasic
