import Sorm.SqlLexer

/-!
# SQL statements

A text is divided into statements at its semicolons, except those inside of a trigger: a statement
that begins with CREATE TRIGGER ends with a semicolon, END, and another semicolon. What is left
behind the last semicolon is a statement too, and a semicolon alone is none.
-/

namespace Sql

inductive Mark
  | semi
  | explain
  | create
  | temp
  | trigger
  | «end»
  | other
deriving DecidableEq, Repr

def toLower (z : List Char) : List Char := z.map Char.toLower

def Token.mark (t : Token) : Mark :=
  if t.type = .semi then .semi
  else if t.type ≠ .word then .other
  else
    let word := toLower t.text
    if word = "explain".toList then .explain
    else if word = "create".toList then .create
    else if word = "temp".toList ∨ word = "temporary".toList then .temp
    else if word = "trigger".toList then .trigger
    else if word = "end".toList then .end
    else .other

inductive Place
  | start
  | normal
  | explain
  | create
  | trigger
  | semi
  | «end»
deriving DecidableEq, Repr

def Place.next : Place → Mark → Place
  | .start, .semi => .start
  | .start, .explain => .explain
  | .start, .create => .create
  | .start, _ => .normal
  | .normal, .semi => .start
  | .normal, _ => .normal
  | .explain, .semi => .start
  | .explain, .other => .explain
  | .explain, .create => .create
  | .explain, _ => .normal
  | .create, .semi => .start
  | .create, .temp => .create
  | .create, .trigger => .trigger
  | .create, _ => .normal
  | .trigger, .semi => .semi
  | .trigger, _ => .trigger
  | .semi, .semi => .semi
  | .semi, .end => .end
  | .semi, _ => .trigger
  | .end, .semi => .start
  | .end, _ => .trigger

def statementsFrom : Place → List Token → List Token → List (List Token)
  | _, read, [] => if read = [] then [] else [read]
  | place, read, t :: ts =>
      match place.next t.mark with
      | .start => if read = [] then statementsFrom .start [] ts
          else read :: statementsFrom .start [] ts
      | place => statementsFrom place (read ++ [t]) ts

def statements (z : List Char) : List (List Token) := statementsFrom .start [] (tokens z)

example : (statements "CREATE TRIGGER t BEGIN DELETE FROM a; END; ; DROP TABLE b".toList).length =
    2 := by decide

end Sql
