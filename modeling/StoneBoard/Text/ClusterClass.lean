import StoneBoard.Text.Combining

/-!
# Classes of characters in clusters

The class of a character says how it joins its neighbours: a letter and its accents, the parts of
a syllable, the pieces of a picture.  The classes are those of the Unicode property
`Grapheme_Cluster_Break`, with the consonants of `Indic_Conjunct_Break` and the characters with
`Extended_Pictographic` set apart.
-/

namespace StoneBoard.Text

inductive ClusterClass where
  | carriageReturn
  | lineFeed
  | control
  /-- belongs to the character before it -/
  | extending
  /-- glues pictures together -/
  | joiner
  /-- stands after the character it belongs to -/
  | spacing
  /-- belongs to the character after it -/
  | preceding
  | leading
  | vowel
  | trailing
  | openSyllable
  | closedSyllable
  | consonant
  | pictograph
  /-- one half of a flag -/
  | regional
  | other
deriving DecidableEq, Repr

namespace ClusterClass

def controlRanges : List (Nat × Nat) :=
  ofRuns 0x80 [0,31,13,0,1390,0,4593,0,2044,0,2,1,24,6,49,15,56975,0,240,11,13364,15,34912,3,5327,7,
    798341,31,96,127,240,3599]

def spacingRanges : List (Nat × Nat) :=
  ofRuns 0x80 [2179,0,55,0,2,2,8,3,1,1,50,1,59,1,6,1,2,1,54,0,58,2,66,0,58,2,8,0,1,1,53,1,60,0,6,1,
    2,1,114,0,1,1,3,2,1,2,52,2,61,3,61,1,58,0,2,0,1,1,46,0,14,1,59,1,5,2,1,2,53,1,76,1,6,6,19,1,63,
    0,127,0,138,1,63,0,177,0,9,1,25,1,44,0,1841,0,7,7,1,1,346,3,2,2,4,1,1,5,224,1,58,0,1,0,21,5,145,
    0,57,3,64,0,30,0,4,1,63,0,2,2,1,0,53,7,8,1,171,0,21,0,35627,1,2,0,88,1,50,15,142,0,48,0,48,1,4,
    1,2,1,111,1,2,1,24,0,157,0,2,1,5,0,237,1,1,1,1,1,1,0,25619,0,1,0,127,0,45,2,4,1,115,0,24,1,59,0,
    48,2,9,0,14,0,93,2,3,1,172,2,31,1,59,0,1,3,2,1,2,1,21,1,85,1,15,0,1,1,103,2,8,1,3,0,107,1,6,0,1,
    1,1,0,2,0,238,1,6,3,2,0,113,2,8,1,1,0,109,0,1,1,110,0,7,0,261,2,9,0,248,4,1,1,7,0,1,0,142,2,8,3,
    4,0,84,0,29,1,62,0,201,0,3,0,1,0,199,0,14,0,106,0,7,0,2,0,213,4,4,1,1,0,350,1,12,0,48,1,8,1,
    16874,2,3620,54]

def precedingRanges : List (Nat × Nat) :=
  ofRuns 0x80 [1408,5,215,0,49,0,384,1,80,0,1131,0,66414,0,15,0,244,1,525,0,1389,0,1,0,322,5,700,0,
    443,0]

def consonantRanges : List (Nat × Nat) :=
  ofRuns 0x80 [2197,36,30,7,24,7,21,19,1,6,1,0,3,3,34,1,1,0,16,1,163,19,1,6,1,1,1,4,63,0,27,19,1,6,
    1,1,1,4,34,1,1,0,17,0,163,19,1,15,30,2,186,37,709,42,20,0,16,5,4,3,3,0,3,1,7,2,4,12,12,0,1777,
    51,620,52,182,1,6,32,17,7,54,29,13,1,11,2,36299,2,3,35,45,4,2,8,10,4,97,15,1,2,6,0,3,1,96,10,
    213,26,24101,0,15,3,1,2,1,28,1741,35,29,0,2,0,568,9,1,0,2,0,1,37,1354,6,2,0,2,7,1,1,1,23,208,0,
    10,39,29,0,11,39,1152,12,1,33]

def linkerRanges : List (Nat × Nat) :=
  ofRuns 0x80 [2253,0,127,0,255,0,127,0,255,0,255,0,747,0,1944,0,653,0,227,0,102,0,36372,0,309,0,
    24392,0,1779,0,668,0,1389,0,264,0,81,0,1192,0]

def pictographRanges : List (Nat × Nat) :=
  ofRuns 0x80 [41,0,4,0,8077,0,12,0,216,0,22,0,90,5,15,1,367,1,12,0,166,0,25,10,4,2,199,0,231,1,10,
    0,9,0,58,3,1,4,9,0,2,0,2,1,2,0,4,0,2,0,1,1,2,0,3,0,3,1,8,2,5,0,1,0,5,11,11,1,2,0,1,1,1,0,18,0,2,
    1,18,5,1,0,1,1,3,1,5,0,2,1,4,1,11,1,5,1,2,0,5,1,1,0,1,1,20,1,5,5,1,3,2,0,4,0,2,0,2,5,1,0,2,0,1,
    0,1,0,6,0,3,0,6,0,10,1,15,0,2,0,4,0,1,0,4,2,1,0,11,1,48,2,9,0,14,0,14,0,372,1,463,2,19,1,51,0,4,
    0,1242,0,12,0,601,0,1,0,114026,0,39,3,100,11,15,1,15,0,14,1,37,9,112,1,12,1,14,0,2,9,19,55,27,
    14,10,0,20,0,2,8,1,3,9,22,6,187,2,111,2,1,1,2,2,82,2,2,1,3,5,253,1,62,11,5,1,23,7,1,2,7,12,0,2,
    3,2,0,4,1,13,1,2,0,8,1,9,0,5,2,12,2,8,2,2,0,1,0,4,0,6,0,3,0,6,85,48,69,5,7,2,16,3,0,1,5,2,12,
    218,37,12,3,56,7,10,5,40,7,30,1,12,3,2,13,9,38,12,46,1,9,1,184,88,7,14,145,256,1021]

def shadeRanges : List (Nat × Nat) := [(0x1F3FB, 0x1F3FF)]

def regionalRanges : List (Nat × Nat) := [(0x1F1E6, 0x1F1FF)]

def leadingRanges : List (Nat × Nat) := [(0x1100, 0x115F), (0xA960, 0xA97C)]

def vowelRanges : List (Nat × Nat) :=
  [(0x1160, 0x11A7), (0xD7B0, 0xD7C6), (0x16D63, 0x16D63), (0x16D67, 0x16D6A)]

def trailingRanges : List (Nat × Nat) := [(0x11A8, 0x11FF), (0xD7CB, 0xD7FB)]

def firstSyllable : Nat := 0xAC00

def lastSyllable : Nat := 0xD7A3

/-- The number of syllables that differ only in their end; the open one comes first. -/
def syllableEnds : Nat := 28

def widthlessJoiner : Char := '\u200D'

def widthlessNonJoiner : Char := '\u200C'

def ofAscii (character : Char) : ClusterClass :=
  if character = '\r' then carriageReturn
  else if character = '\n' then lineFeed
  else if character.toNat < 0x20 || character.toNat == 0x7F then control
  else other

def ofChar (character : Char) : ClusterClass :=
  if isAscii character then ofAscii character
  else if firstSyllable ≤ character.toNat && character.toNat ≤ lastSyllable then
    if (character.toNat - firstSyllable) % syllableEnds = 0 then openSyllable else closedSyllable
  else if character = widthlessJoiner then joiner
  else if isCombining character || covers shadeRanges character then extending
  else if covers spacingRanges character then spacing
  else if covers pictographRanges character then pictograph
  else if covers consonantRanges character then consonant
  else if covers controlRanges character then control
  else if covers regionalRanges character then regional
  else if covers precedingRanges character then preceding
  else if covers leadingRanges character then leading
  else if covers vowelRanges character then vowel
  else if covers trailingRanges character then trailing
  else other

/-- Whether a character makes a conjunct of the consonants around it. -/
def isLinker (character : Char) : Bool := covers linkerRanges character

/-- Whether a character can stand between the consonants of a conjunct. -/
def isInsideConjunct (character : Char) : Bool :=
  character != widthlessNonJoiner &&
    (ofChar character == extending || ofChar character == joiner)

def isSeparator : ClusterClass → Bool
  | carriageReturn => true
  | lineFeed => true
  | control => true
  | _ => false

def isAttached : ClusterClass → Bool
  | extending => true
  | joiner => true
  | spacing => true
  | _ => false

/-- Whether two parts of a syllable follow each other in it. -/
def formSyllable : ClusterClass → ClusterClass → Bool
  | leading, leading => true
  | leading, vowel => true
  | leading, openSyllable => true
  | leading, closedSyllable => true
  | openSyllable, vowel => true
  | openSyllable, trailing => true
  | vowel, vowel => true
  | vowel, trailing => true
  | closedSyllable, trailing => true
  | trailing, trailing => true
  | _, _ => false

end ClusterClass

end StoneBoard.Text
