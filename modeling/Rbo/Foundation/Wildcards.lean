import Mathlib.Data.List.Basic

/-!
# Patterns of literals and runs

An anchored regular expression without alternatives is a list of tokens: a
literal symbol, one symbol of a class, or a run of symbols of a class.  A text
matches when it can be cut along the tokens.
-/

namespace Rbo.Foundation.Wildcards

variable {Symbol : Type} [DecidableEq Symbol]

/-- A part of an anchored pattern. -/
inductive Token (Symbol : Type) where
  | literal (symbol : Symbol)
  | one (allowed : Symbol → Bool)
  | run (allowed : Symbol → Bool)

/-- Skip some symbols of the class, then go on. -/
def runThen (allowed : Symbol → Bool) (next : List Symbol → Bool) :
    List Symbol → Bool
  | [] => next []
  | symbol :: rest =>
    next (symbol :: rest) || (allowed symbol && runThen allowed next rest)

/-- Whether the tokens cover the whole text. -/
def test : List (Token Symbol) → List Symbol → Bool
  | [], text => text.isEmpty
  | .literal _ :: _, [] => false
  | .literal symbol :: tokens, head :: rest =>
    head == symbol && test tokens rest
  | .one _ :: _, [] => false
  | .one allowed :: tokens, head :: rest => allowed head && test tokens rest
  | .run allowed :: tokens, text => runThen allowed (test tokens) text

theorem test_literal_cons (symbol head : Symbol)
    (tokens : List (Token Symbol)) (rest : List Symbol) :
    test (.literal symbol :: tokens) (head :: rest) =
      (head == symbol && test tokens rest) :=
  rfl

/-- A text that matches a leading literal starts with it. -/
theorem head_of_test_literal {symbol head : Symbol}
    {tokens : List (Token Symbol)} {rest : List Symbol}
    (passes : test (.literal symbol :: tokens) (head :: rest) = true) :
    head = symbol := by
  rw [test_literal_cons, Bool.and_eq_true, beq_iff_eq] at passes
  exact passes.1

end Rbo.Foundation.Wildcards
