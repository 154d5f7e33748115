import CalcBasic.Proofs.ReadWalk
import Mathlib.Logic.Relation

/-! All that reading does to a symbol table. Every run, also one that ends with an
error, is a sequence of a few kinds of edits; what each edit keeps, reading keeps. -/
namespace CalcBasic.Read
open CalcBasic.Action

inductive Edit : Symbols → Symbols → Prop
  | reference (symbols : Symbols) (name : String) : Edit symbols (symbols.reference name)
  | listType (symbols : Symbols) (name : String) : Edit symbols (symbols.setType name .list)
  | remark (symbols : Symbols) (remark : Remark) (line : Option Nat) :
      Edit symbols (symbols.remark remark line)
  | declare (symbols : Symbols) (name : String) (inline : Bool) :
      Edit symbols (symbols.declare name inline).2
  | define (symbols : Symbols) (name : String) (inline : Bool) (params : List String) (required : Nat)
      (body : Tree) : Edit symbols (symbols.define name inline params required body).2

abbrev Edits : Symbols → Symbols → Prop := Relation.ReflTransGen Edit

theorem edits_pervade : Pervades (Keeps Edits) where
  pure := keeps_pure
  fail _ _ := keeps_throw _
  bind := keeps_bind
  look _ each := keeps_bind keeps_get each
  remark note line symbols := .single (.remark symbols note line)
  use name symbols := .single (.reference symbols name)
  listType name symbols := .single (.listType symbols name)
  declare name inline symbols := .single (.declare symbols name inline)
  define name inline params required body symbols := .single (.define symbols name inline params required body)

/-- Reading a program edits the symbol table and does nothing else to it. -/
theorem keeps_program (markUnknown : Bool) (tokens : List Token) : Keeps Edits (program markUnknown tokens) :=
  edits_pervade.program markUnknown tokens

end CalcBasic.Read
