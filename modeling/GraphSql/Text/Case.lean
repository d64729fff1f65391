import GraphSql.Text.CaseTable

/-!
# Letter case

Names are compared without regard to letter case by comparing their small-letter forms.  The form of
a text is made letter by letter with one exception: a capital sigma at the end of a word becomes a
final sigma, and this is the only place where the neighbours of a letter matter.
-/

namespace GraphSql.Text

def isCased (c : Char) : Bool := casedLetters.covers c

def isCaseIgnorable (c : Char) : Bool := caseIgnorables.covers c

/-- The small form of one letter away from any context.  Only the capital I with a dot has a form of
two characters. -/
def lowerChar (c : Char) : List Char :=
  if c.toNat < 128 then [c.toLower]
  else if c = '\u0130' then ['i', '\u0307']
  else
    match smallLetters.find? fun (a, b, step, _) =>
      decide (a ≤ c.toNat) && decide (c.toNat ≤ b) && (c.toNat - a) % step == 0 with
    | some (a, _, _, s) => [Char.ofNat (s + (c.toNat - a))]
    | none => [c]

/-- Whether the nearest character that case rules do not pass over is cased. -/
def startsCased (cs : List Char) : Bool :=
  match cs.dropWhile isCaseIgnorable with
  | [] => false
  | c :: _ => isCased c

/-- The small sigma between the characters `before`, nearest first, and `after`: final when a cased
letter stands before it and none after it. -/
def lowerSigma (before after : List Char) : Char :=
  if startsCased before && !startsCased after then 'ς' else 'σ'

/-- The small-letter form of a text that stands behind the characters `before`, nearest first. -/
def lowerAfter (before : List Char) : List Char → List Char
  | [] => []
  | c :: cs =>
    (if c = 'Σ' then [lowerSigma before cs] else lowerChar c) ++ lowerAfter (c :: before) cs

def lower (s : String) : String := String.ofList (lowerAfter [] s.toList)

/-- The capital of a letter, for letters whose capital is an ASCII letter: besides the ASCII letters
these are the dotless i and the long s.  Capitals are only compared with ASCII words or made from
identifiers, which have no other letters with a capital. -/
def upperChar (c : Char) : Char :=
  if c = 'ı' then 'I' else if c = 'ſ' then 'S' else c.toUpper

def upper (s : String) : String := String.ofList (s.toList.map upperChar)

/-- Whether two names differ at most in letter case. -/
def sameName (s t : String) : Bool := lower s == lower t

end GraphSql.Text
