import ChipHighlight.Style

/-!
# Keywords

The reserved words: block openers and their short forms, wave forms, envelopes,
panning, tick rates, volumes, and the note and octave commands.  A word is
reserved as a whole and in this spelling only.
-/

namespace ChipHighlight.Keyword

/-- The reserved words in ascending order. -/
def words : List Text :=
  ["a", "adsr", "anv", "as", "at", "d", "data", "dc", "dcnv", "dn", "dr", "ds", "e", "g", "grp",
   "harm", "i", "instr", "load", "m", "mt", "no", "noi", "noise", "octave", "p", "pal", "pk",
   "pnv", "pr", "ps", "pt", "pulsekernel", "pw", "r", "rep", "rt", "s", "sam", "samp", "sample",
   "saw", "sawtooth", "si", "sin", "sinc", "sine", "sm", "sq", "sqr", "square", "st",
   "stepticks", "stt", "sw", "t", "tickrate", "tr", "track", "tri", "triangle", "tstepticks",
   "v", "vb", "vm", "vnv", "vs", "w", "wave", "x", "xb", "z"].map String.toList

def isReserved (word : Text) : Bool := words.contains word

def style? (word : Text) : Option Style := if isReserved word then some .keyword else none

end ChipHighlight.Keyword
