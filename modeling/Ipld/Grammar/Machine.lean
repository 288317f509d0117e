import Ipld.Grammar.Rule

/-!
# Running the grammar

A run keeps the symbols that are still to come, and how the values of those symbols will make up the
value of the whole.  Each lexeme either is the next symbol, or selects the production by which the
next rule goes on, or passes over a rule that may stand for nothing.

What may come next is read off the same list: the terminals the first symbol can begin with, and, if
it may stand for nothing, those of the symbols after it.
-/

namespace Ipld.Grammar

/-- The symbols still to come in a run, and what their values make up. -/
structure Run (α : Type) where
  needs : List Symbol
  finish : Values needs → α

/-- The terminals that may come next. -/
def expected : List Symbol → List Terminal
  | [] => []
  | .terminal t :: _ => [t]
  | .rule r :: rest => r.leads ++ if r.empty?.isSome then expected rest else []

/-- Whether the symbols may all stand for nothing. -/
def nullable : List Symbol → Bool
  | [] => true
  | .terminal _ :: _ => false
  | .rule r :: rest => r.empty?.isSome && nullable rest

/-- The run after one more lexeme, when the lexeme may come next. -/
def step {α : Type} (lexeme : Lexeme) :
    (needs : List Symbol) → (Values needs → α) → Option (Run α)
  | [], _ => none
  | .terminal t :: rest, finish =>
    if lexeme.terminal = t then some ⟨rest, fun vs => finish (lexeme, vs)⟩ else none
  | .rule r :: rest, finish =>
    match r.productions.find? fun p => p.lead = lexeme.terminal with
    | some p =>
      some ⟨p.body ++ rest, fun vs =>
        let parts := Values.split p.body vs
        finish (p.value lexeme parts.1, parts.2)⟩
    | none =>
      match r.empty? with
      | some v => step lexeme rest fun vs => finish (v, vs)
      | none => none

/-- The value of a run whose remaining symbols all stand for nothing. -/
def close {α : Type} : (needs : List Symbol) → (Values needs → α) → Option α
  | [], finish => some (finish ())
  | .terminal _ :: _, _ => none
  | .rule r :: rest, finish =>
    match r.empty? with
    | some v => close rest fun vs => finish (v, vs)
    | none => none

/-- How a run ended. -/
inductive Ending (α : Type) where
  /-- Every lexeme was taken, and nothing more is needed. -/
  | complete (value : α)
  /-- Every lexeme was taken, but one of these terminals is needed. -/
  | exhausted (wanted : List Terminal)
  /-- A lexeme came where only these terminals may come. -/
  | rejected (found : Lexeme) (wanted : List Terminal)

/-- Runs over all the lexemes. -/
def Run.over {α : Type} (run : Run α) : List Lexeme → Ending α
  | [] =>
    match close run.needs run.finish with
    | some value => .complete value
    | none => .exhausted (expected run.needs)
  | lexeme :: rest =>
    match step lexeme run.needs run.finish with
    | some next => next.over rest
    | none => .rejected lexeme (expected run.needs)

/-- The run at the start of a source. -/
def start : Run (Checked (List (String × Definition))) :=
  ⟨[.rule .declarations], fun vs => vs.1⟩

end Ipld.Grammar
