import ArrayPatch.Scan.Strings

/-!
# Scanning from any offset

The readers of this library start at a boundary.  Here they are started at an
arbitrary offset of a text.  Two cases are new.  Past the end nothing is left,
so that reading fails as it does at the end, with the offset as it was given.
Inside a character the bytes left of the character are the first bytes of a
literal: none of them is a blank, a comma, a mark or a bracket.
-/

namespace ArrayPatch

namespace Scan

/-- The end of the literal that starts with the bytes left of a character. -/
def fragmentEnd (start : Nat) (tail : Text.Tail) : Cursor :=
  Cursor.skip isLiteral ⟨start + tail.fragment, tail.rest⟩

/-- The end of the blanks at an offset. -/
def blanksEnd (text : Text) (start : Nat) : Nat :=
  let tail := text.tailAt start
  if tail.fragment = 0 then (Cursor.skipBlanks ⟨start, tail.rest⟩).offset else start

/-- Decode the string token at an offset. -/
def stringAt (text : Text) (start : Nat) : Except Fault (Text × Nat) :=
  let tail := text.tailAt start
  if tail.fragment = 0 then do
    let (value, next) ← StringToken.read ⟨start, tail.rest⟩
    return (value, next.1.offset)
  else
    .error ⟨.expectedString, start⟩

/-- The end of the string token at an offset. -/
def stringEnd (text : Text) (start : Nat) : Except Fault Nat :=
  let tail := text.tailAt start
  if tail.fragment = 0 then do
    let next ← StringToken.skip ⟨start, tail.rest⟩
    return next.1.offset
  else
    .error ⟨.expectedString, start⟩

/-- The end of the literal at an offset. -/
def literalEnd (text : Text) (start : Nat) : Except Fault Nat :=
  let tail := text.tailAt start
  if tail.fragment = 0 then do
    let next ← literal ⟨start, tail.rest⟩
    return next.1.offset
  else
    return (fragmentEnd start tail).offset

/-- The end of the value at an offset, and the sites inside the value. -/
def valueAt (settings : Settings) (text : Text) (start : Nat) : Scan Nat :=
  let tail := text.tailAt start
  if tail.fragment = 0 then do
    let next ← value settings settings.maxDepth ⟨start, tail.rest⟩
    return next.1.offset
  else
    return (fragmentEnd start tail).offset

/-- The end of the array whose opening bracket is taken to be the byte at an
offset. -/
def arrayAt (settings : Settings) (text : Text) (start : Nat) : Scan Nat :=
  match settings.maxDepth with
  | 0 => fail .nestingTooDeep start
  | depth + 1 =>
      let tail := text.tailAt (start + 1)
      if tail.fragment = 0 then do
        let next ← elements (value settings depth) start ⟨start + 1, tail.rest⟩
        return next.1.offset
      else do
        let next ← moreElements (value settings depth) start (fragmentEnd (start + 1) tail)
        return next.1.offset

/-- The end of the object whose opening brace is taken to be the byte at an
offset. -/
def objectAt (settings : Settings) (text : Text) (start : Nat) : Scan Nat :=
  match settings.maxDepth with
  | 0 => fail .nestingTooDeep start
  | depth + 1 =>
      let tail := text.tailAt (start + 1)
      if tail.fragment = 0 then do
        let next ← members (value settings depth) start settings ⟨start + 1, tail.rest⟩
        return next.1.offset
      else
        fail .expectedKey (start + 1)

/-- The strings of the array at an offset, if it is one, and its end. -/
def stringsAt (settings : Settings) (text : Text) (start : Nat) :
    Scan (Option (List Text) × Nat) :=
  let tail := text.tailAt start
  if tail.fragment = 0 then do
    let (values, next) ← strings settings settings.maxDepth ⟨start, tail.rest⟩
    return (values, next.1.offset)
  else
    return (none, (fragmentEnd start tail).offset)

end Scan

/-- What a scanner can be asked to read at an offset. -/
inductive Request where
  | value (start : Nat)
  | array (start : Nat)
  | object (start : Nat)
  | strings (start : Nat)
deriving DecidableEq, Repr

/-- Where the value that was read ends, and its strings if they were asked for. -/
inductive Answer where
  | stop (offset : Nat)
  | strings (values : Option (List Text)) (offset : Nat)
deriving DecidableEq, Repr

/-- Read what a request asks for. -/
def Request.scan (settings : Settings) (text : Text) : Request → Scan Answer
  | value start => do return .stop (← Scan.valueAt settings text start)
  | array start => do return .stop (← Scan.arrayAt settings text start)
  | object start => do return .stop (← Scan.objectAt settings text start)
  | strings start => do
      let (values, offset) ← Scan.stringsAt settings text start
      return .strings values offset

end ArrayPatch
