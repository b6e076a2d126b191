import Mathlib.Data.List.Basic
import Xctools.Machine.Branching

/-! Command line completion, `compleat`. A usage says which words may come behind one another; it is made into a
completer, which goes through the words of a line and offers what the last of them may be completed to. A shell
command and the evaluation of usages that refer to themselves need a parameter each: what the command prints,
and a number of levels. -/
namespace Xctools.Compleat
open Machine

/-- A string of Haskell. -/
abbrev Word := List Char

section Completer

/-- `Completer`: from the words of the line to completions, which are `Tokens`, the words that are left, or
`Suggestions`. -/
abbrev Completer := Branching (List Word) (List Word)

/-- `continue`: consume nothing. -/
def continueOn : Completer := .stay

/-- `skip`: consume anything. -/
def skip : Completer
  | _ :: ts => .ok [.inl ts]
  | [] => .ok []

/-- `match`: one word is compared if there are others behind it, and completed if it is the last. -/
def matchToken (p : Word → Bool) (suggest : Word → List Word) : Completer
  | [] => .ok []
  | [t] => .ok [.inr (suggest t)]
  | t :: t' :: ts => if p t then continueOn (t' :: ts) else .ok []

/-- `escape`. -/
def escape (s : Word) : Word := s.flatMap fun c => if c = ':' then ['\\',':'] else [c]

/-- `matchesFrom`. -/
def matchesFrom (xs : List Word) (t : Word) : List Word :=
  (xs.filter fun x => t.isPrefixOf x).map fun x => escape x ++ [' ']

/-- `str`. -/
def str (s : Word) : Completer := matchToken (s == ·) (matchesFrom [s])

variable (shell : Word → Word → List Word)

/-- `shellCommand`. The command gets the word as `COMP_CWORD`. -/
def shellCommand (command : Word) : Completer := matchToken (fun _ => true) fun t => matchesFrom (shell command t) t

/-- `optional`. -/
def optional (c : Completer) : Completer := c.both continueOn

/-- `many`. -/
def many (n : ℕ) (p : Completer) : Completer := p.repeated n

/-- `many1`. -/
def many1 (n : ℕ) (p : Completer) : Completer := p.follow (many n p)

/-- `run`. -/
def run (c : Completer) (ts : List Word) : Outcome (List Word) := do
  let rs ← c ts
  return (rs.filterMap Sum.getRight?).flatten

end Completer

section Usage

/-- The completers that a usage file names: a word, and the one for the command itself. -/
inductive Primitive
  | str (s : Word)
  | skip
  deriving DecidableEq, Repr

def Primitive.completer : Primitive → Completer
  | str s => Compleat.str s
  | skip => Compleat.skip

/-- `Usage`. A choice and a sequence have a first part. -/
inductive Usage
  | primitive (p : Primitive)
  | var (s : Word)
  | choice (x : Usage) (xs : List Usage)
  | sequence (x : Usage) (xs : List Usage)
  | many (x : Usage)
  | many1 (x : Usage)
  | optional (x : Usage)
  | shellCommand (s : Word)

/-- `EnvName`. -/
inductive EnvName
  | varName (s : Word)
  | commandName (s : Word)
  deriving DecidableEq, Repr

abbrev Environment := List (EnvName × Usage)

/-- `foldl1` of a list with a first element. -/
def foldl1 {α : Type*} (f : α → α → α) (x : α) (xs : List α) : α := xs.foldl f x

variable (shell : Word → Word → List Word) (env : Environment)

/-- `eval`, down to so many levels. -/
def eval : ℕ → Usage → Completer
  | 0, _ => fun _ => .error .loop
  | _ + 1, .primitive c => c.completer
  | n + 1, .choice x xs => foldl1 Branching.both (eval n x) (xs.map (eval n))
  | n + 1, .sequence x xs => foldl1 Branching.follow (eval n x) (xs.map (eval n))
  | n + 1, .many x => many n (eval n x)
  | n + 1, .many1 x => many1 n (eval n x)
  | n + 1, .optional x => optional (eval n x)
  | _ + 1, .shellCommand s => shellCommand shell s
  | n + 1, .var s =>
    match env.lookup (.varName s) with
    | some u => eval n u
    | none => skip

/-- The usages of a command. -/
def Environment.usages (command : Word) : List Usage :=
  (env.filter fun e => e.1 = .commandName command).map Prod.snd

/-- `lookupCommand`. There is no choice among no usages: `foldl1` raises an exception. -/
def lookupCommand (n : ℕ) (command : Word) : Completer :=
  match env.usages command with
  | [] => fun _ => .error .exit
  | x :: xs => eval shell env n (.choice x xs)

end Usage

end Xctools.Compleat
