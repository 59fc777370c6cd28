import MipsAsm.CommandLine.Option

/-!
# Usage

What is written when a command line asks for help, or makes no sense.
-/

namespace MipsAsm.CommandLine

/-- The summary of the options. -/
def usageText : String :=
  "usage: neomips [-h] [-u] [-f FREQ] [-i] [--maxmemoryusage MAX_MEMORY]\n" ++
  "               [--memchunksize MEM_CHUNK_SIZE] [-s] [-l LIBS] [-v]\n"

/-- The help text. -/
def helpText : String :=
  usageText ++
  "\nMIPS32 assembler front end: preprocess and tokenize a source file\n" ++
  "\noptions:\n" ++
  "  -h, --help            show this help message and exit\n" ++
  "  -u, --unicode         decode the source with the locale's preferred encoding\n" ++
  "  -f FREQ, --freq FREQ\n" ++
  "  -i, --interactive\n" ++
  "  --maxmemoryusage MAX_MEMORY\n" ++
  "  --memchunksize MEM_CHUNK_SIZE\n" ++
  "  -s, --selfmodifying\n" ++
  "  -l LIBS, --lib LIBS   additional directory searched by .include (repeatable)\n" ++
  "  -v, --verbose         debug logging\n"

/-- The message for a misuse of an option. -/
def misuse (s : Switch) (problem : String) : String :=
  s!"{usageText}neomips: error: argument {s.name}: {problem}\n"

end MipsAsm.CommandLine
