import Monkey.Evaluation.Eval
import Monkey.Grammar.Parse
import Monkey.Interpreter.Cache
import Monkey.Journal.Record
import Monkey.Settings.Basic

/-!
# Interpreters

An interpreter takes one source after the other and evaluates each of them in the same global
scope. It keeps the programs of the last sources, and a journal of what it did.

A source with faults is not evaluated and leaves everything but the journal as it was. The result
of an evaluation, an error of the program included, is an ordinary result. An interpreter has a
bound for the nesting of evaluations; one that was cut off there has no result at all, and `eval`
then gives `none`.
-/

namespace Monkey

/-- The number of the global scope. -/
def globalScope : ScopeId := 0

structure Interpreter where
  heap : Heap
  cache : ProgramCache
  tracing : Bool
  /-- How many evaluations may be inside each other. -/
  bound : Nat
  /-- What was done, newest first. -/
  journal : List Journal.Record

namespace Grammar.TraceNote

/-- The record of a note: tabs show how many rules are around it. -/
def record (n : TraceNote) : Journal.Record where
  severity := .trace
  component := .grammar
  message :=
    List.replicate n.depth 0x09 ++ utf8 (if n.begins then "BEGIN " else "END ") ++ utf8 n.rule.text
  fields := [("token", .text n.token.literal), ("pos", .text n.token.pos.text)]

end Grammar.TraceNote

namespace Evaluation.Event

/-- The record of an event. -/
def record : Event → Journal.Record
  | visit (some kind) =>
    ⟨.trace, .evaluation, utf8 "eval", [("node", .text (utf8 "*ast." ++ utf8 kind.name))]⟩
  | visit none => ⟨.trace, .evaluation, utf8 "eval", [("node", .text (utf8 "<nil>"))]⟩
  | bound name kind =>
    ⟨.debug, .evaluation, utf8 "bind", [("name", .text name), ("type", .text (utf8 kind.text))]⟩

end Evaluation.Event

namespace Interpreter

open Journal (Record)

/-- The bound for the nesting, which is out of reach for programs that come to an end in
practice. -/
def depthBound : Nat := 1000000

/-- An interpreter with an empty global scope. -/
def ofSettings (s : Settings) : Interpreter where
  heap := Heap.empty.alloc none
  cache := .ofSize s.parseCache
  tracing := s.severity = .trace
  bound := depthBound
  journal := []

def bindings (i : Interpreter) : Bindings := i.heap.bindings globalScope

def note (i : Interpreter) (r : Record) : Interpreter := { i with journal := r :: i.journal }

def cacheHit (source : Bytes) : Record :=
  ⟨.trace, .interpreter, utf8 "parse cache hit", [("len", .number source.length)]⟩

def parseFailed (faults : List Grammar.Fault) : Record :=
  ⟨.debug, .interpreter, utf8 "parse failed", [("errors", .number faults.length)]⟩

def evalFailed (fault : Value.Fault) : Record :=
  ⟨.debug, .interpreter, utf8 "evaluation failed", [("err", .text fault.message)]⟩

/-- The program of a source. -/
def parse (i : Interpreter) (source : Bytes) : Except (List Grammar.Fault) Program × Interpreter :=
  match i.cache.find? source with
  | some (program, cache) => (.ok program, { i with cache }.note (cacheHit source))
  | none =>
    let parsed := Grammar.parseSource source i.tracing
    let i := parsed.trace.foldl (fun i n => i.note n.record) i
    if parsed.faults.isEmpty then
      (.ok parsed.program, { i with cache := i.cache.insert source parsed.program })
    else (.error parsed.faults, i.note (parseFailed parsed.faults))

/-- Whether the program of a source is taken from the cache. -/
def isCached (i : Interpreter) (source : Bytes) : Bool := (i.cache.find? source).isSome

/-- Evaluates a program in the global scope. -/
def run (i : Interpreter) (program : Program) : Option (Option Value × Interpreter) :=
  match Evaluation.eval i.bound globalScope (.program program) ⟨i.heap, []⟩ with
  | .done result s =>
    let i := { i with heap := s.heap, journal := s.events.map Evaluation.Event.record ++ i.journal }
    match result with
    | some (.error fault) => some (result, i.note (evalFailed fault))
    | _ => some (result, i)
  | .stuck => none
  | .exhausted => none

/-- Evaluates a source: the faults in it, or its result. -/
def eval (i : Interpreter) (source : Bytes) :
    Option (Except (List Grammar.Fault) (Option Value) × Interpreter) :=
  match i.parse source with
  | (.error faults, i) => some (.error faults, i)
  | (.ok program, i) =>
    match i.run program with
    | some (result, i) => some (.ok result, i)
    | none => none

/-- The journal from the oldest record to the newest. -/
def records (i : Interpreter) : List Record := i.journal.reverse

end Interpreter

end Monkey
