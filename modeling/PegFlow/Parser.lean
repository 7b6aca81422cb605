/-
# PegFlow.Parser — parsing with a grammar

A parser is a checked grammar with its program. Everything that can be wrong
with a grammar is found when the parser is made. It parses whole texts and
starts streams; `Parser.read` (`PegFlow.Reader`) parses octets.
-/
import PegFlow.Grammar.Constants
import PegFlow.Stream

namespace PegFlow

set_option autoImplicit false

/-- How many octets of input are kept, those of the newest piece among them, and the
host functions of templates. -/
structure ParserConfig where
  minBufferSize : Nat := 0x100000
  callbacks : Callbacks := []

namespace ParserConfig

/-- Keep so many times 2^20 octets, as far as offsets go. -/
def withMegabytes (c : ParserConfig) (n : Nat) : ParserConfig :=
  { c with minBufferSize := min (n * 0x100000) Buffer.maxOffset }

def withCallback (c : ParserConfig) (name : String) (f : Callback) : ParserConfig :=
  { c with callbacks := Keyed.insert name f c.callbacks }

/-- A list of names between quotes. -/
def quotedNames (names : List String) : String :=
  "[" ++ ", ".intercalate (names.map Text.quoted) ++ "]"

def describe (c : ParserConfig) : String :=
  s!"ParserConfig \x7b min_buffer_size: {c.minBufferSize}, callbacks: " ++
    quotedNames (Keyed.keys c.callbacks) ++ " \x7d"

end ParserConfig

/-- A checked grammar ready to parse. -/
structure Parser where
  program : Program
  grammar : AnnotatedGrammar
  minBufferSize : Nat

namespace Parser

/-- The parser of a grammar. -/
def ofGrammar? (g : Grammar) (config : ParserConfig) : Except GrammarError Parser := do
  let grammar ← g.annotate? (Keyed.keys config.callbacks)
  let constants ← Constant.evaluate? config.callbacks [] grammar.grammar.constants
  let library : Library := { constants, callbacks := config.callbacks }
  return { program := Program.ofGrammar grammar library, grammar
           minBufferSize := config.minBufferSize }

/-- Start a parse that is fed piece by piece. -/
def stream (p : Parser) : Stream := Stream.start p.program (Buffer.empty p.minBufferSize)

/-- Parse a whole text. -/
def parse (p : Parser) (text : String) : Except ParseError Value :=
  (Stream.start p.program (Buffer.complete text)).finish.2

def describeProgram (p : Program) : String :=
  s!"Program \x7b ops: {p.ops.size}, rules: {p.rules.size}, terminals: {p.terminals.size}, rulesets: " ++
    ParserConfig.quotedNames p.names ++ " \x7d"

def describe (p : Parser) : String :=
  "Parser \x7b program: " ++ describeProgram p.program ++
    s!", warnings: {p.grammar.warnings.length}, min_buffer_size: {p.minBufferSize} \x7d"

end Parser

end PegFlow
